import FosKernel.Trap.UserPages

/-!
# The search for a victim

On a working set whose hand is one of its elements and whose pages have page
tables, the searches of CLOCK and Modified CLOCK end with a victim: every round
that goes on clears a used bit. LRU finds a victim unless every time stamp is the
greatest one.
-/

namespace FosKernel

namespace Kernel

variable {kernel before after : Kernel} {env element hand : Nat} {list : List Nat}

/-- The hand is an element of the working set. -/
def HandListed (kernel : Kernel) (env : Nat) : Prop :=
  ∃ hand ∈ (kernel.envs env).pageWsList, (kernel.envs env).pageLastWsElement = some hand

/-- Every page of the working set has a page table. -/
def Located (kernel : Kernel) (env : Nat) : Prop :=
  ∀ element ∈ (kernel.envs env).pageWsList, ∃ slot,
    kernel.memory.slot (kernel.directory env) (kernel.elementVa element) = some slot

/-- The used bit of an element's page. -/
def used (kernel : Kernel) (env element : Nat) : Bool :=
  Perm.has (kernel.pagePermissions env (kernel.elementVa element)) permUsed

/-- The number of elements with a used page. -/
def usedCount (kernel : Kernel) (env : Nat) : Nat :=
  (kernel.envs env).pageWsList.countP (kernel.used env)

/-- The successor of an element in a list without duplicates. -/
theorem listNext_append {front back : List Nat} (outside : element ∉ front) :
    listNext (front ++ element :: back) element = back.head? := by
  induction front with
  | nil => simp [listNext]
  | cons head front ih =>
      have different : head ≠ element := fun same => outside (same ▸ List.mem_cons_self ..)
      rw [listNext, List.cons_append, List.dropWhile_cons_of_pos (by simpa using different)]
      exact ih fun member => outside (List.mem_cons_of_mem _ member)

/-- The successor of an element is in the list. -/
theorem listNext_mem {next : Nat} (found : listNext list element = some next) : next ∈ list := by
  have tail := List.mem_of_head? found
  exact (List.dropWhile_sublist _).subset (List.mem_of_mem_tail tail)

theorem nextOrFirst_mem (member : element ∈ list) :
    ∃ next ∈ list, nextOrFirst list element = some next := by
  unfold nextOrFirst
  cases found : listNext list element with
  | some next => exact ⟨next, listNext_mem found, rfl⟩
  | none =>
      cases list with
      | nil => exact absurd member List.not_mem_nil
      | cons head rest => exact ⟨head, List.mem_cons_self .., rfl⟩

/-- The step of CLOCK around the list. -/
theorem clockNext_mem (member : element ∈ list) : ∃ next ∈ list,
    (if list.getLast? = some element then list.head? else listNext list element) = some next := by
  obtain ⟨front, back, rfl, outside⟩ := List.eq_append_cons_of_mem member
  by_cases last : (front ++ element :: back).getLast? = some element
  · rw [if_pos last]
    cases front with
    | nil => exact ⟨element, List.mem_cons_self .., rfl⟩
    | cons head front => exact ⟨head, List.mem_cons_self .., rfl⟩
  · rw [if_neg last, listNext_append outside]
    cases back with
    | nil => exact absurd List.getLast?_concat last
    | cons next back => exact ⟨next, by simp, rfl⟩

/-- The kernel after the used bit of an entry was cleared. -/
def clearUsed (kernel : Kernel) (slot : Slot) : Kernel :=
  { kernel with
    memory := kernel.memory.setEntry slot ((kernel.memory.tables slot).setPerms 0 permUsed) }

theorem used_of_clearUsed {slot : Slot} (used : (kernel.clearUsed slot).used env element = true) :
    kernel.used env element = true := by
  unfold Kernel.used at *
  cases located : kernel.memory.slot (kernel.directory env) (kernel.elementVa element) with
  | none =>
      have unknown : ∀ kernel' : Kernel, kernel'.memory.slot (kernel'.directory env)
          (kernel.elementVa element) = none →
            kernel'.pagePermissions env (kernel.elementVa element) = BitVec.allOnes 12 := by
        intro kernel' missing
        simp only [pagePermissions, Memory.ptGetPagePermissions, Memory.entry, missing,
          Option.map_none, Option.getD_none]
      rw [unknown kernel located]
      decide
  | some place =>
      have located' : (kernel.clearUsed slot).memory.slot ((kernel.clearUsed slot).directory env)
          ((kernel.clearUsed slot).elementVa element) = some place := located
      rw [pagePermissions_eq located'] at used
      rw [pagePermissions_eq located]
      by_cases same : place = slot
      · subst same
        rw [clearUsed, Memory.setEntry_tables, Function.update_self,
          PageTableEntry.setPerms_clear_perm] at used
        exact Perm.has_of_and used
      · rwa [clearUsed, Memory.setEntry_tables, Function.update_of_ne same] at used

theorem clearUsed_self {slot : Slot}
    (located : kernel.memory.slot (kernel.directory env) (kernel.elementVa element) = some slot) :
    (kernel.clearUsed slot).used env element = false := by
  have located' : (kernel.clearUsed slot).memory.slot ((kernel.clearUsed slot).directory env)
      ((kernel.clearUsed slot).elementVa element) = some slot := located
  rw [Kernel.used, pagePermissions_eq located', clearUsed, Memory.setEntry_tables,
    Function.update_self, PageTableEntry.setPerms_clear_perm]
  exact Perm.has_clear_of_subset _ (by decide)

/-- Clearing the used bit of a used page leaves fewer of them. -/
theorem usedCount_clearUsed {slot : Slot} (member : element ∈ (kernel.envs env).pageWsList)
    (located : kernel.memory.slot (kernel.directory env) (kernel.elementVa element) = some slot)
    (used : kernel.used env element = true) :
    (kernel.clearUsed slot).usedCount env < kernel.usedCount env := by
  obtain ⟨front, back, same⟩ := List.append_of_mem member
  have mono : ∀ list : List Nat, list.countP ((kernel.clearUsed slot).used env) ≤
      list.countP (kernel.used env) :=
    fun list => List.countP_mono_left fun other _ used => used_of_clearUsed used
  unfold usedCount
  change (kernel.envs env).pageWsList.countP _ < _
  rw [same, List.countP_append, List.countP_append, List.countP_cons_of_neg (by
    rw [clearUsed_self located]
    exact Bool.false_ne_true), List.countP_cons_of_pos used]
  exact Nat.add_lt_add_of_le_of_lt (mono front) (Nat.lt_succ_of_le (mono back))

/-- The hand is an element of the working set and every page of the working set has a table. -/
structure Searchable (kernel : Kernel) (env : Nat) : Prop where
  hand : kernel.HandListed env
  located : kernel.Located env

theorem usedCount_le (kernel : Kernel) (env : Nat) :
    kernel.usedCount env ≤ (kernel.envs env).pageWsList.length :=
  List.countP_le_length

@[simp] theorem setHand_pageWsList (kernel : Kernel) (env : Nat) (hand : Option Nat) (other : Nat) :
    ((kernel.setHand env hand).envs other).pageWsList = (kernel.envs other).pageWsList :=
  kernel.setEnv_envs env { kernel.envs env with pageLastWsElement := hand }
    (fun changed old => changed.pageWsList = old.pageWsList) rfl
    (fun _ => rfl) other

@[simp] theorem setHand_pageWsMaxSize (kernel : Kernel) (env : Nat) (hand : Option Nat)
    (other : Nat) :
    ((kernel.setHand env hand).envs other).pageWsMaxSize = (kernel.envs other).pageWsMaxSize :=
  kernel.setEnv_envs env { kernel.envs env with pageLastWsElement := hand }
    (fun changed old => changed.pageWsMaxSize = old.pageWsMaxSize) rfl
    (fun _ => rfl) other

@[simp] theorem setHand_directory (kernel : Kernel) (env : Nat) (hand : Option Nat) (other : Nat) :
    (kernel.setHand env hand).directory other = kernel.directory other :=
  kernel.setEnv_envs env { kernel.envs env with pageLastWsElement := hand }
    (fun changed old => changed.envPageDirectory = old.envPageDirectory) rfl
    (fun _ => rfl) other

@[simp] theorem setHand_pageLastWsElement (kernel : Kernel) (env : Nat) (hand : Option Nat) :
    ((kernel.setHand env hand).envs env).pageLastWsElement = hand := by
  simp [setHand]

theorem setHand_usedCount (kernel : Kernel) (env : Nat) (hand : Option Nat) :
    (kernel.setHand env hand).usedCount env = kernel.usedCount env := by
  unfold usedCount
  rw [setHand_pageWsList]
  congr 1
  funext element
  unfold used pagePermissions
  rw [setHand_directory]
  rfl

/-- A search keeps the working set. -/
theorem Searched.pageWsList (searched : Searched env before after) :
    (after.envs env).pageWsList = (before.envs env).pageWsList := by
  obtain ⟨⟨tables, hand, rfl⟩, _⟩ := searched
  exact setHand_pageWsList ..

theorem Searched.pageWsMaxSize (searched : Searched env before after) :
    (after.envs env).pageWsMaxSize = (before.envs env).pageWsMaxSize := by
  obtain ⟨⟨tables, hand, rfl⟩, _⟩ := searched
  exact setHand_pageWsMaxSize ..

/-- A search keeps the places of the entries. -/
theorem Searched.located (searched : Searched env before after) (located : before.Located env) :
    after.Located env := by
  have withdraws := searched.withdraws
  unfold Located elementVa
  rw [searched.pageWsList, withdraws.directory, withdraws.elements]
  intro element member
  obtain ⟨slot, place⟩ := located element member
  exact ⟨slot, by rw [Memory.slot_congr withdraws.directories]; exact place⟩

/-- One round of the clock: the used bit of the hand's page is cleared, the hand moves on, and
fewer used bits are left. -/
theorem clearUsed_round {slot : Slot} {next : Nat} (searchable : kernel.Searchable env)
    (member : hand ∈ (kernel.envs env).pageWsList)
    (place : kernel.memory.slot (kernel.directory env) (kernel.elementVa hand) = some slot)
    (used : kernel.used env hand = true) (following : next ∈ (kernel.envs env).pageWsList) :
    ((kernel.clearUsed slot).setHand env (some next)).Searchable env ∧
      Searched env kernel ((kernel.clearUsed slot).setHand env (some next)) ∧
      ((kernel.clearUsed slot).setHand env (some next)).usedCount env < kernel.usedCount env := by
  have cleared : Searched env kernel (kernel.clearUsed slot) := by
    have ends := Searched.setPagePermissions kernel env (kernel.elementVa hand)
    rw [setPagePermissions_eq kernel place] at ends
    exact ends
  have searched := cleared.trans (.setHand _ env (some next))
  refine ⟨⟨⟨next, ?_, setHand_pageLastWsElement ..⟩, searched.located searchable.located⟩,
    searched, ?_⟩
  · rw [searched.pageWsList]
    exact following
  · rw [setHand_usedCount]
    exact usedCount_clearUsed member place used

/-- The search of CLOCK ends with a victim after at most one round for every used bit. -/
theorem clockVictim_ends (env fuel : Nat) : ∀ kernel : Kernel, kernel.Searchable env →
    kernel.usedCount env < fuel →
      Ends (kernel.clockVictim env fuel)
        (fun (victim, after) => victim ∈ (kernel.envs env).pageWsList ∧
          Searched env kernel after)
        fun _ => False := by
  induction fuel with
  | zero => exact fun kernel _ less => absurd less (Nat.not_lt_zero _)
  | succ fuel ih =>
      intro kernel searchable less
      obtain ⟨hand, member, pointed⟩ := searchable.hand
      obtain ⟨slot, place⟩ := searchable.located hand member
      unfold clockVictim
      simp only [pointed]
      cases used : Perm.has (kernel.pagePermissions env (kernel.elementVa hand)) permUsed with
      | false => exact .ok ⟨member, .refl kernel env⟩
      | true =>
          obtain ⟨next, following, step⟩ := clockNext_mem member
          obtain ⟨searchable', searched, fewer⟩ :=
            clearUsed_round searchable member place used following
          rw [if_pos rfl, setPagePermissions_eq kernel place]
          change Ends (((kernel.clearUsed slot).setHand env
            (if (kernel.envs env).pageWsList.getLast? = some hand then
              (kernel.envs env).pageWsList.head?
            else listNext (kernel.envs env).pageWsList hand)).clockVictim env fuel) _ _
          rw [step]
          apply (ih _ searchable' (by omega)).mono _ fun _ stopped => stopped
          rintro ⟨victim, after⟩ ⟨found, rest⟩
          exact ⟨searched.pageWsList ▸ found, searched.trans rest⟩

/-- Try 1 of Modified CLOCK finds a victim or comes back to a hand in the working set. -/
theorem tryUnmodified_ends (env count : Nat) : ∀ kernel : Kernel, kernel.Searchable env →
    Ends (kernel.tryUnmodified env count)
      (fun (victim, after) => (∀ found, victim = some found →
        found ∈ (kernel.envs env).pageWsList) ∧
        Searched env kernel after ∧ after.Searchable env ∧
        after.usedCount env = kernel.usedCount env)
      fun _ => False := by
  induction count with
  | zero =>
      exact fun kernel searchable =>
        .ok ⟨(fun _ none => by cases none), .refl kernel env, searchable, rfl⟩
  | succ count ih =>
      intro kernel searchable
      obtain ⟨hand, member, pointed⟩ := searchable.hand
      unfold tryUnmodified
      simp only [pointed]
      split
      · refine .ok ⟨fun found same => ?_, .refl kernel env, searchable, rfl⟩
        rwa [← Option.some.inj same]
      · obtain ⟨next, following, step⟩ := nextOrFirst_mem member
        rw [step]
        have moved := Searched.setHand kernel env (some next)
        have searchable' : (kernel.setHand env (some next)).Searchable env := by
          refine ⟨⟨next, ?_, setHand_pageLastWsElement ..⟩,
            moved.located searchable.located⟩
          rwa [moved.pageWsList]
        apply (ih _ searchable').mono _ fun _ stopped => stopped
        rintro ⟨victim, after⟩ ⟨found, rest, searchable'', kept⟩
        rw [moved.pageWsList] at found
        exact ⟨found, moved.trans rest, searchable'', kept.trans (setHand_usedCount ..)⟩

/-- Try 2 of Modified CLOCK finds a victim or clears a used bit in every round. -/
theorem tryUnused_ends (env count : Nat) : ∀ kernel : Kernel, kernel.Searchable env →
    Ends (kernel.tryUnused env count)
      (fun (victim, after) => (∀ found, victim = some found →
        found ∈ (kernel.envs env).pageWsList) ∧
        Searched env kernel after ∧ after.Searchable env ∧
        (victim = none → after.usedCount env + count ≤ kernel.usedCount env))
      fun _ => False := by
  induction count with
  | zero =>
      exact fun kernel searchable =>
        .ok ⟨(fun _ none => by cases none), .refl kernel env, searchable,
          fun _ => Nat.le_refl _⟩
  | succ count ih =>
      intro kernel searchable
      obtain ⟨hand, member, pointed⟩ := searchable.hand
      obtain ⟨slot, place⟩ := searchable.located hand member
      unfold tryUnused
      simp only [pointed]
      cases used : Perm.has (kernel.pagePermissions env (kernel.elementVa hand)) permUsed with
      | false =>
          refine .ok ⟨fun found same => ?_, .refl kernel env, searchable,
            fun found => by cases found⟩
          rwa [← Option.some.inj same]
      | true =>
          obtain ⟨next, following, step⟩ := nextOrFirst_mem member
          obtain ⟨searchable', searched, fewer⟩ :=
            clearUsed_round searchable member place used following
          rw [if_pos rfl, setPagePermissions_eq kernel place]
          change Ends (((kernel.clearUsed slot).setHand env
            (nextOrFirst (kernel.envs env).pageWsList hand)).tryUnused env count) _ _
          rw [step]
          apply (ih _ searchable').mono _ fun _ stopped => stopped
          rintro ⟨victim, after⟩ ⟨found, rest, searchable'', cleared⟩
          rw [searched.pageWsList] at found
          refine ⟨found, searched.trans rest, searchable'', fun none => ?_⟩
          have left : after.usedCount env + count ≤
            ((kernel.clearUsed slot).setHand env (some next)).usedCount env := cleared none
          change after.usedCount env + (count + 1) ≤ kernel.usedCount env
          omega

/-- What a search ends with: an element of the working set, after nothing but a search. -/
def FindsVictim (kernel : Kernel) (env : Nat) (search : Except Stop (Nat × Kernel)) : Prop :=
  Ends search
    (fun (victim, after) => victim ∈ (kernel.envs env).pageWsList ∧ Searched env kernel after)
    fun _ => False

/-- A round of Modified CLOCK that finds no victim clears a used bit for every element. -/
theorem modifiedClockVictim_round {fuel : Nat} (searchable : kernel.Searchable env)
    (full : (kernel.envs env).pageWsMaxSize = (kernel.envs env).pageWsList.length)
    (again : ∀ last : Kernel, last.Searchable env → Searched env kernel last →
      last.usedCount env + (kernel.envs env).pageWsList.length ≤ kernel.usedCount env →
        last.FindsVictim env (last.modifiedClockVictim env fuel)) :
    kernel.FindsVictim env (kernel.modifiedClockVictim env (fuel + 1)) := by
  unfold modifiedClockVictim
  dsimp only
  rw [full]
  apply (tryUnmodified_ends env _ kernel searchable).bind
  rintro ⟨unmodified, middle⟩ ⟨found, searched, searchable', kept⟩
  cases unmodified with
  | some victim => exact .ok ⟨found victim rfl, searched⟩
  | none =>
      apply (tryUnused_ends env _ middle searchable').bind
      rintro ⟨unused, last⟩ ⟨found', searched', searchable'', cleared⟩
      rw [searched.pageWsList] at found'
      have searched'' := searched.trans searched'
      cases unused with
      | some victim => exact .ok ⟨found' victim rfl, searched''⟩
      | none =>
          apply (again last searchable'' searched'' (kept ▸ cleared rfl)).mono _ fun _ stopped =>
            stopped
          rintro ⟨victim, after⟩ ⟨member, rest⟩
          exact ⟨searched''.pageWsList ▸ member, searched''.trans rest⟩

/-- Modified CLOCK ends with a victim in its second round at the latest. -/
theorem modifiedClockVictim_ends (env fuel : Nat) (kernel : Kernel)
    (searchable : kernel.Searchable env)
    (full : (kernel.envs env).pageWsMaxSize = (kernel.envs env).pageWsList.length) :
    kernel.FindsVictim env (kernel.modifiedClockVictim env (fuel + 2)) := by
  apply modifiedClockVictim_round searchable full
  intro last searchable' searched cleared
  have full' : (last.envs env).pageWsMaxSize = (last.envs env).pageWsList.length := by
    rw [searched.pageWsMaxSize, searched.pageWsList, full]
  apply modifiedClockVictim_round searchable' full'
  intro last' _ _ cleared'
  obtain ⟨hand, member, _⟩ := searchable.hand
  have nonempty := List.length_pos_of_mem member
  have bound := kernel.usedCount_le env
  rw [searched.pageWsList] at cleared'
  omega

/-- The element is the first one of the least time stamp, and that is not the greatest one. -/
def Oldest (kernel : Kernel) (env element : Nat) : Prop :=
  ∃ front back, (kernel.envs env).pageWsList = front ++ element :: back ∧
    (kernel.elements element).timeStamp < 2 ^ 32 - 1 ∧
    (∀ other ∈ front, (kernel.elements element).timeStamp <
      (kernel.elements other).timeStamp) ∧
    ∀ other ∈ back, (kernel.elements element).timeStamp ≤ (kernel.elements other).timeStamp

/-- The loop of LRU keeps the first element of the least time stamp below the bound. -/
theorem lruVictim_foldl (stamp : Nat → Nat) (list : List Nat) :
    ∀ (bound : Nat) (best : Option Nat),
    let result := list.foldl (fun (minTimeStamp, victim) element =>
        if stamp element < minTimeStamp then (stamp element, some element)
        else (minTimeStamp, victim)) (bound, best)
    (result.2 = best ∧ ∀ element ∈ list, bound ≤ stamp element) ∨
      ∃ front element back, list = front ++ element :: back ∧ result.2 = some element ∧
        stamp element < bound ∧ (∀ other ∈ front, stamp element < stamp other) ∧
        ∀ other ∈ back, stamp element ≤ stamp other := by
  induction list with
  | nil => exact fun bound best => .inl ⟨rfl, nofun⟩
  | cons head rest ih =>
      intro bound best
      dsimp only
      rw [List.foldl_cons]
      by_cases earlier : stamp head < bound
      · simp only [earlier, ↓reduceIte]
        rcases ih (stamp head) (some head) with
          ⟨same, least⟩ | ⟨front, element, back, split, rest⟩
        · exact .inr ⟨[], head, rest, rfl, same, earlier, nofun, least⟩
        · obtain ⟨found, less, before, after⟩ := rest
          refine .inr ⟨head :: front, element, back, by rw [split, List.cons_append], found,
            Nat.lt_trans less earlier, fun other member => ?_, after⟩
          rcases List.mem_cons.mp member with rfl | inside
          · exact less
          · exact before other inside
      · simp only [earlier, ↓reduceIte]
        rcases ih bound best with ⟨same, least⟩ | ⟨front, element, back, split, rest⟩
        · refine .inl ⟨same, fun element member => ?_⟩
          rcases List.mem_cons.mp member with rfl | inside
          · exact Nat.le_of_not_lt earlier
          · exact least element inside
        · obtain ⟨found, less, before, after⟩ := rest
          refine .inr ⟨head :: front, element, back, by rw [split, List.cons_append], found, less,
            fun other member => ?_, after⟩
          rcases List.mem_cons.mp member with rfl | inside
          · exact Nat.lt_of_lt_of_le less (Nat.le_of_not_lt earlier)
          · exact before other inside

/-- LRU evicts the oldest element, if there is one. -/
theorem lruVictim_cases (kernel : Kernel) (env : Nat) :
    (kernel.lruVictim env = none ∧ ∀ element ∈ (kernel.envs env).pageWsList,
      2 ^ 32 - 1 ≤ (kernel.elements element).timeStamp) ∨
    ∃ victim, kernel.lruVictim env = some victim ∧ kernel.Oldest env victim := by
  rcases lruVictim_foldl (fun element => (kernel.elements element).timeStamp)
    (kernel.envs env).pageWsList (2 ^ 32 - 1) none with
      ⟨none, least⟩ | ⟨front, victim, back, split, found, rest⟩
  · exact .inl ⟨none, least⟩
  · exact .inr ⟨victim, found, front, back, split, rest⟩

/-- Rotating a list to an element and removing it puts what was after the element first. -/
theorem rotateTo_append (victim : Nat) (front : List Nat) : ∀ back fuel, victim ∉ front →
    front.length < fuel → rotateTo victim (front ++ victim :: back) fuel =
        .ok (back ++ front) := by
  induction front with
  | nil =>
      intro back fuel _ bound
      cases fuel with
      | zero => exact absurd bound (Nat.not_lt_zero _)
      | succ fuel => simp [rotateTo]
  | cons head front ih =>
      intro back fuel outside bound
      cases fuel with
      | zero => exact absurd bound (Nat.not_lt_zero _)
      | succ fuel =>
          have different : head ≠ victim := fun same => outside (same ▸ List.mem_cons_self ..)
          rw [List.cons_append, rotateTo, if_neg different, List.append_assoc, List.cons_append,
            ih (back ++ [head]) fuel (fun member => outside (List.mem_cons_of_mem _ member))
              (Nat.lt_of_succ_lt_succ bound), List.append_assoc, List.singleton_append]

end Kernel

end FosKernel
