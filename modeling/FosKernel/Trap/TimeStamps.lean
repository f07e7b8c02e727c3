import FosKernel.Trap.StoredPages

/-!
# Time stamps

What `update_WS_time_stamps` does to a working set whose pages have page tables:
it clears all used bits, moves no page, and gives no element a stamp above half its
old one with the used bit in front.
-/

namespace FosKernel

namespace Kernel

variable {kernel before middle after : Kernel} {env element : Nat} {free list : List Nat}

/-- The round of `update_WS_time_stamps` for one element. -/
def stampElement (env : Nat) (kernel : Kernel) (element : Nat) : Except Stop Kernel :=
  let stamped := kernel.elements element
  if Perm.has (kernel.pagePermissions env stamped.virtualAddress) permUsed then
    { kernel with
      elements := Function.update kernel.elements element
        { stamped with timeStamp := stamped.timeStamp / 2 ||| 2 ^ 31 } }.setPagePermissions env
          stamped.virtualAddress 0 permUsed
  else
    .ok { kernel with
      elements := Function.update kernel.elements element
        { stamped with timeStamp := stamped.timeStamp / 2 } }

/-- The stamp that an element is about to get. -/
def nextStamp (kernel : Kernel) (env element : Nat) : Nat :=
  if kernel.used env element then (kernel.elements element).timeStamp / 2 ||| 2 ^ 31
  else (kernel.elements element).timeStamp / 2

/-- Only time stamps changed and used bits were cleared. -/
structure Ticked (before after : Kernel) : Prop where
  shape : ∃ elements tables, after =
    { before with elements := elements, memory := { before.memory with tables := tables } }
  vas : after.elementVa = before.elementVa
  entries : ∀ slot, after.memory.tables slot = before.memory.tables slot ∨
    after.memory.tables slot = (before.memory.tables slot).setPerms 0 permUsed

namespace Ticked

theorem refl (kernel : Kernel) : Ticked kernel kernel where
  shape := ⟨_, _, rfl⟩
  vas := rfl
  entries _ := .inl rfl

theorem trans (first : Ticked before middle) (second : Ticked middle after) :
    Ticked before after where
  shape := by
    obtain ⟨elements, tables, rfl⟩ := first.shape
    obtain ⟨elements', tables', rfl⟩ := second.shape
    exact ⟨elements', tables', rfl⟩
  vas := second.vas.trans first.vas
  entries slot := by
    rcases second.entries slot with same | cleared
    · rw [same]
      exact first.entries slot
    · rw [cleared]
      rcases first.entries slot with same | cleared'
      · exact .inr (by rw [same])
      · exact .inr (by rw [cleared', PageTableEntry.setPerms_clear_clear])

theorem envs (ticked : Ticked before after) : after.envs = before.envs := by
  obtain ⟨_, _, rfl⟩ := ticked.shape
  rfl

theorem disk (ticked : Ticked before after) : after.disk = before.disk := by
  obtain ⟨_, _, rfl⟩ := ticked.shape
  rfl

theorem directories (ticked : Ticked before after) :
    after.memory.directories = before.memory.directories := by
  obtain ⟨_, _, rfl⟩ := ticked.shape
  rfl

theorem algorithm (ticked : Ticked before after) :
    after.pageRepAlgoType = before.pageRepAlgoType := by
  obtain ⟨_, _, rfl⟩ := ticked.shape
  rfl

theorem sameGuard (ticked : Ticked before after) : SameGuard before after := by
  obtain ⟨_, _, rfl⟩ := ticked.shape
  exact ⟨rfl, rfl, rfl, rfl⟩

theorem slot_eq (ticked : Ticked before after) (env va : Nat) :
    after.memory.slot (after.directory env) va = before.memory.slot (before.directory env) va := by
  rw [directory, ticked.envs, Memory.slot_congr ticked.directories]
  rfl

/-- An entry changes in its used bit only. -/
theorem pageEntry (ticked : Ticked before after) (env va : Nat) :
    after.pageEntry env va = before.pageEntry env va ∨
      after.pageEntry env va = (before.pageEntry env va).setPerms 0 permUsed := by
  cases located : before.memory.slot (before.directory env) va with
  | none =>
      left
      simp only [Kernel.pageEntry, Memory.entry, ticked.slot_eq, located, Option.map_none]
  | some slot =>
      rw [pageEntry_eq located, pageEntry_eq ((ticked.slot_eq env va).trans located)]
      exact ticked.entries slot

/-- Bits other than the used one stay, and so do frames. -/
theorem pageEntry_has (ticked : Ticked before after) (env va : Nat) {mask : Perm}
    (kept : ~~~permUsed &&& mask = mask) :
    Perm.has (after.pageEntry env va).perm mask = Perm.has (before.pageEntry env va).perm mask ∧
      (after.pageEntry env va).frame = (before.pageEntry env va).frame := by
  rcases ticked.pageEntry env va with same | cleared
  · rw [same]
    exact ⟨rfl, rfl⟩
  · have unset : (0 : Perm) &&& mask = 0#12 := BitVec.zero_and
    rw [cleared, PageTableEntry.setPerms_has _ unset kept]
    exact ⟨rfl, rfl⟩

/-- No page moves. -/
theorem store (ticked : Ticked before after) (env : Nat) : after.store env = before.store env := by
  refine store_congr (fun page => ⟨?_, ?_, ?_⟩) ?_ ?_ ?_
  · exact (ticked.pageEntry_has env page (by decide)).1
  · exact (ticked.pageEntry_has env page
      (show ~~~permUsed &&& permPresent = permPresent by decide)).2
  · exact (ticked.pageEntry_has env page (by decide)).1
  · obtain ⟨_, _, rfl⟩ := ticked.shape
    rfl
  · rw [ticked.envs]
  · rw [ticked.disk]

/-- Used bits are only cleared. -/
theorem used (ticked : Ticked before after) (located : ∃ slot,
    before.memory.slot (before.directory env) (before.elementVa element) = some slot)
    (used : after.used env element = true) : before.used env element = true := by
  obtain ⟨slot, place⟩ := located
  unfold Kernel.used at *
  rw [ticked.vas, pagePermissions_eq ((ticked.slot_eq env _).trans place)] at used
  rw [pagePermissions_eq place]
  rcases ticked.entries slot with same | cleared
  · rwa [same] at used
  · rw [cleared, PageTableEntry.setPerms_clear_perm] at used
    exact Perm.has_of_and used

end Ticked

/-- A new stamp of an element. -/
def stamped (kernel : Kernel) (element timeStamp : Nat) : Kernel :=
  { kernel with
    elements := Function.update kernel.elements element
      { kernel.elements element with timeStamp := timeStamp } }

theorem stamped_ticked (kernel : Kernel) (element timeStamp : Nat) :
    Ticked kernel (kernel.stamped element timeStamp) where
  shape := ⟨_, kernel.memory.tables, rfl⟩
  vas := funext (kernel.elementVa_stamp element timeStamp)
  entries _ := .inl rfl

theorem clearUsed_ticked (kernel : Kernel) (slot : Slot) :
    Ticked kernel (kernel.clearUsed slot) where
  shape := ⟨kernel.elements, _, rfl⟩
  vas := rfl
  entries other := by
    by_cases same : other = slot
    · subst same
      exact .inr (Function.update_self ..)
    · exact .inl (Function.update_of_ne same ..)

/-- One round: the element gets its next stamp, and its used bit is clear. -/
theorem stampElement_ends (kernel : Kernel) (env element : Nat) (located : ∃ slot,
    kernel.memory.slot (kernel.directory env) (kernel.elementVa element) = some slot) :
    Ends (kernel.stampElement env element)
      (fun after => Ticked kernel after ∧ after.used env element = false ∧
        (after.elements element).timeStamp = kernel.nextStamp env element ∧
        ∀ other, other ≠ element → after.elements other = kernel.elements other)
      fun _ => False := by
  obtain ⟨slot, place⟩ := located
  have stamp : ∀ timeStamp, ((kernel.stamped element timeStamp).elements element).timeStamp =
      timeStamp := fun timeStamp =>
    congrArg WorkingSetElement.timeStamp (Function.update_self element _ kernel.elements)
  have others : ∀ timeStamp other, other ≠ element →
      (kernel.stamped element timeStamp).elements other = kernel.elements other :=
    fun timeStamp other different => Function.update_of_ne different ..
  have ticked := fun timeStamp => kernel.stamped_ticked element timeStamp
  cases marked : kernel.used env element with
  | false =>
      have next : kernel.nextStamp env element = (kernel.elements element).timeStamp / 2 := by
        rw [nextStamp, marked, if_neg Bool.false_ne_true]
      have round : kernel.stampElement env element = .ok (kernel.stamped element _) :=
        if_neg (by
          rw [← Bool.not_eq_true] at marked
          exact marked)
      rw [round]
      refine .ok ⟨ticked _, ?_, (stamp _).trans next.symm, others _⟩
      rw [Bool.eq_false_iff]
      intro used
      rw [(ticked _).used ⟨slot, place⟩ used] at marked
      cases marked
  | true =>
      have next : kernel.nextStamp env element =
          (kernel.elements element).timeStamp / 2 ||| 2 ^ 31 := by
        rw [nextStamp, marked, if_pos rfl]
      have round : kernel.stampElement env element =
          (kernel.stamped element _).setPagePermissions env (kernel.elementVa element) 0 permUsed :=
        if_pos marked
      rw [round, setPagePermissions_eq (kernel.stamped element _) place]
      have cleared := (kernel.stamped element
        ((kernel.elements element).timeStamp / 2 ||| 2 ^ 31)).clearUsed_ticked slot
      refine .ok ⟨(ticked _).trans cleared, ?_, (stamp _).trans next.symm, others _⟩
      apply clearUsed_self
      rw [show (kernel.stamped element _).elementVa element = kernel.elementVa element from
        congrFun (ticked _).vas element]
      exact place

/-- A stamp is at most the next one but for its age. -/
theorem nextStamp_le (ticked : Ticked before after) (located : ∃ slot,
    before.memory.slot (before.directory env) (before.elementVa element) = some slot)
    (same : after.elements element = before.elements element) :
    after.nextStamp env element ≤ before.nextStamp env element := by
  unfold nextStamp
  rw [same]
  cases used : after.used env element with
  | true =>
      exact Nat.le_of_eq (by rw [ticked.used located used])
  | false =>
      cases before.used env element with
      | false => exact Nat.le_refl _
      | true => exact Nat.left_le_or

/-- The rounds for a list of elements. -/
theorem stampElements_ends (env : Nat) (list : List Nat) : ∀ kernel : Kernel, list.Nodup →
    (∀ element ∈ list, ∃ slot,
      kernel.memory.slot (kernel.directory env) (kernel.elementVa element) = some slot) →
    Ends (list.foldlM (stampElement env) kernel)
      (fun after => Ticked kernel after ∧
        (∀ element, element ∉ list → after.elements element = kernel.elements element) ∧
        ∀ element ∈ list, after.used env element = false ∧
          (after.elements element).timeStamp ≤ kernel.nextStamp env element)
      fun _ => False := by
  induction list with
  | nil => exact fun kernel _ _ => .ok ⟨.refl kernel, fun _ _ => rfl, nofun⟩
  | cons head rest ih =>
      intro kernel nodup located
      obtain ⟨outside, nodup'⟩ := List.nodup_cons.mp nodup
      rw [List.foldlM_cons]
      apply (stampElement_ends kernel env head (located head (List.mem_cons_self ..))).bind
      intro first ⟨ticked, clear, stamp, others⟩
      have located' : ∀ element ∈ rest, ∃ slot,
          first.memory.slot (first.directory env) (first.elementVa element) = some slot := by
        intro element member
        rw [ticked.slot_eq, ticked.vas]
        exact located element (List.mem_cons_of_mem _ member)
      apply (ih first nodup' located').mono _ fun _ never => never
      intro after ⟨ticked', others', stamps⟩
      refine ⟨ticked.trans ticked', fun element absent => ?_, fun element member => ?_⟩
      · rw [List.mem_cons, not_or] at absent
        rw [others' element absent.2, others element absent.1]
      · rcases List.mem_cons.mp member with same | inside
        · subst same
          rw [others' element outside]
          refine ⟨?_, Nat.le_of_eq stamp⟩
          rw [Bool.eq_false_iff]
          intro used
          obtain ⟨slot, place⟩ := located element member
          rw [ticked'.used ⟨slot, by rwa [ticked.slot_eq, ticked.vas]⟩ used] at clear
          cases clear
        · obtain ⟨clear', bound⟩ := stamps element inside
          have different : element ≠ head := fun same => outside (same ▸ inside)
          exact ⟨clear', Nat.le_trans bound
            (nextStamp_le ticked (located element member) (others element different))⟩

/-- The spec of `update_WS_time_stamps`: the used bits are clear, and no stamp is above the next
one. -/
theorem WorkingSet.updateWsTimeStamps_ends (ws : WorkingSet kernel env free) :
    Ends (kernel.updateWsTimeStamps env)
      (fun after => Ticked kernel after ∧
        (∀ element, element ∉ (kernel.envs env).pageWsList →
          after.elements element = kernel.elements element) ∧
        ∀ element ∈ (kernel.envs env).pageWsList, after.used env element = false ∧
          (after.elements element).timeStamp ≤ kernel.nextStamp env element)
      fun _ => False :=
  stampElements_ends env (kernel.envs env).pageWsList kernel ws.nodup ws.located

/-- A stamp stays a `uint32`. -/
theorem nextStamp_lt (bound : (kernel.elements element).timeStamp < 2 ^ 32) :
    kernel.nextStamp env element < 2 ^ 32 := by
  have half : (kernel.elements element).timeStamp / 2 < 2 ^ 32 := by omega
  unfold nextStamp
  split
  · exact Nat.or_lt_two_pow half (by decide)
  · exact half

end Kernel

end FosKernel
