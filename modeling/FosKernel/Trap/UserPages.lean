import FosKernel.Trap.PageFaults

/-!
# The pages of an environment

The page-table entries of an environment as a function of the page, and the
invariant of its present pages: which they are, that each has a frame of its
own, and that no such frame is free.
-/

namespace FosKernel

theorem roundDown_isUserPage {va : Nat} (user : va < userTop) :
    IsUserPage (roundDown va pageSize) := by
  unfold IsUserPage roundDown pageSize
  omega

theorem IsUserPage.roundDown_eq {va : Nat} (page : IsUserPage va) : roundDown va pageSize = va := by
  unfold roundDown
  rw [page.1, Nat.sub_zero]

theorem IsUserPage.lt (va : Nat) (page : IsUserPage va) : va < 2 ^ 32 := by
  have below := page.2
  unfold userTop at below
  omega

theorem vpn_eq_iff {va va' : Nat} : vpn va = vpn va' ↔
    roundDown va pageSize = roundDown va' pageSize := by
  unfold vpn roundDown pageSize
  omega

theorem le_roundDown_iff {bound : Nat} (aligned : bound % pageSize = 0) (va : Nat) :
    bound ≤ roundDown va pageSize ↔ bound ≤ va := by
  unfold roundDown pageSize at *
  omega

/-- The heap and the stack consist of whole pages. -/
theorem inHeapOrStack_roundDown (va : Nat) :
    inHeapOrStack (roundDown va pageSize) = inHeapOrStack va := by
  unfold inHeapOrStack
  simp only [← Nat.not_le, le_roundDown_iff (show userHeapStart % pageSize = 0 from rfl),
    le_roundDown_iff (show userHeapMax % pageSize = 0 from rfl),
    le_roundDown_iff (show uStackBottom % pageSize = 0 by decide),
    le_roundDown_iff (show uStackTop % pageSize = 0 from rfl)]

namespace Kernel

/-- The entry of a page; 0 without a page table. -/
def pageEntry (kernel : Kernel) (env va : Nat) : PageTableEntry :=
  (kernel.memory.entry (kernel.directory env) va).getD .zero

/-- The present user pages of an environment are the given ones, each has a frame of its own, and
the free frame list holds none of their frames. -/
structure Mapped (kernel : Kernel) (env : Nat) (pages free : List Nat) : Prop where
  separate : kernel.SeparateTables env
  nodup : pages.Nodup
  user : ∀ page ∈ pages, IsUserPage page
  present : ∀ va < userTop, kernel.pagePresent env va = true ↔ roundDown va pageSize ∈ pages
  owns : ∀ page ∈ pages, ∀ page' ∈ pages,
    (kernel.pageEntry env page).frame = (kernel.pageEntry env page').frame → page = page'
  represents : kernel.memory.freeFrameList.Represents free
  apart : ∀ page ∈ pages, (kernel.pageEntry env page).frame ∉ free

variable {kernel before after : Kernel} {env va va' page : Nat} {slot : Slot}
  {pages free : List Nat}
  {entry : PageTableEntry}

theorem pageEntry_eq (located : kernel.memory.slot (kernel.directory env) va = some slot) :
    kernel.pageEntry env va = kernel.memory.tables slot := by
  rw [pageEntry, Memory.entry_eq located, Option.getD_some]

theorem pageEntry_present (kernel : Kernel) (env va : Nat) :
    (kernel.pageEntry env va).present = kernel.pagePresent env va := by
  unfold pageEntry pagePresent
  cases kernel.memory.entry (kernel.directory env) va <;> rfl

theorem pageEntry_roundDown (kernel : Kernel) (env va : Nat) :
    kernel.pageEntry env (roundDown va pageSize) = kernel.pageEntry env va := by
  unfold pageEntry Memory.entry
  rw [Memory.slot_roundDown]

theorem pagePresent_roundDown (kernel : Kernel) (env va : Nat) :
    kernel.pagePresent env (roundDown va pageSize) = kernel.pagePresent env va := by
  rw [← pageEntry_present, pageEntry_roundDown, pageEntry_present]

/-- The page table of a present page exists. -/
theorem exists_slot (present : kernel.pagePresent env va = true) :
    ∃ slot, kernel.memory.slot (kernel.directory env) va = some slot := by
  cases located : kernel.memory.slot (kernel.directory env) va with
  | none =>
      simp only [pagePresent, Memory.entry, located, Option.map_none] at present
      cases present
  | some slot => exact ⟨slot, rfl⟩

theorem pageEntry_congr (memory : after.memory.tables = before.memory.tables)
    (directories : after.memory.directories = before.memory.directories)
    (directory : after.directory env = before.directory env) (va : Nat) :
    after.pageEntry env va = before.pageEntry env va := by
  unfold pageEntry Memory.entry
  rw [memory, directory, Memory.slot_congr directories]

/-- Writing the entry of a page changes the entry of no other page. -/
theorem pageEntry_update (separate : kernel.SeparateTables env)
    (directories : after.memory.directories = kernel.memory.directories)
    (directory : after.directory env = kernel.directory env)
    (located : kernel.memory.slot (kernel.directory env) va = some slot)
    (tables : after.memory.tables = Function.update kernel.memory.tables slot entry)
    (bound : va < 2 ^ 32) (bound' : va' < 2 ^ 32) :
    after.pageEntry env va' =
      if roundDown va' pageSize = roundDown va pageSize then entry else
          kernel.pageEntry env va' := by
  have place : ∀ page, after.memory.slot (after.directory env) page =
      kernel.memory.slot (kernel.directory env) page := by
    intro page
    rw [directory, Memory.slot_congr directories]
  split
  · rename_i same
    rw [← pageEntry_roundDown, same, pageEntry_roundDown, pageEntry_eq ((place va).trans located),
      tables, Function.update_self]
  · rename_i different
    cases located' : kernel.memory.slot (kernel.directory env) va' with
    | none =>
        simp only [pageEntry, Memory.entry, place, located', Option.map_none]
    | some slot' =>
        have apart : slot' ≠ slot := by
          intro same
          subst same
          exact different (vpn_eq_iff.mp (separate.page_unique located' located bound' bound))
        rw [pageEntry_eq located', pageEntry_eq ((place va').trans located'), tables,
          Function.update_of_ne apart]

/-- A new page table holds no page where no table in use has its name. -/
theorem createPageTable_pageEntry_of_fresh
    (fresh : ∀ index table, kernel.memory.directories (kernel.directory env) index =
      some table →
      table < kernel.nextTable)
    (missing : kernel.memory.getPageTable (kernel.directory env) va = none) (page : Nat) :
    (kernel.createPageTable env va).pageEntry env page = kernel.pageEntry env page := by
  have directory : (kernel.createPageTable env va).directory env = kernel.directory env := rfl
  unfold pageEntry Memory.entry Memory.slot
  rw [directory]
  by_cases same : pdx page = pdx va
  · have missing' : kernel.memory.getPageTable (kernel.directory env) page = none := by
      rw [Memory.getPageTable, same]
      exact missing
    have created : (kernel.createPageTable env va).memory.getPageTable (kernel.directory env) page =
        some kernel.nextTable := by
      simp [Memory.getPageTable, createPageTable, same]
    rw [missing', created]
    simp [createPageTable]
  · have kept : (kernel.createPageTable env va).memory.getPageTable (kernel.directory env) page =
        kernel.memory.getPageTable (kernel.directory env) page := by
      simp [Memory.getPageTable, createPageTable, same]
    rw [kept]
    cases held : kernel.memory.getPageTable (kernel.directory env) page with
    | none => rfl
    | some table =>
        have old : table ≠ kernel.nextTable := Nat.ne_of_lt (fresh _ _ held)
        simp [createPageTable, old]

namespace Mapped

/-- The invariant depends only on the frames and the presence of user pages and on the list of
free frames. -/
theorem congr (mapped : Mapped before env pages free)
    (directories : after.memory.directories = before.memory.directories)
    (directory : after.directory env = before.directory env)
    (list : after.memory.freeFrameList = before.memory.freeFrameList)
    (same : ∀ va < userTop, (after.pageEntry env va).present =
      (before.pageEntry env va).present ∧
      (after.pageEntry env va).frame = (before.pageEntry env va).frame) :
    Mapped after env pages free where
  separate := by
    unfold SeparateTables
    rw [directories, directory]
    exact mapped.separate
  nodup := mapped.nodup
  user := mapped.user
  present va user := by
    rw [← pageEntry_present, (same va user).1, pageEntry_present]
    exact mapped.present va user
  owns page member page' member' held := by
    rw [(same page (mapped.user page member).2).2,
      (same page' (mapped.user page' member').2).2] at held
    exact mapped.owns page member page' member' held
  represents := by
    rw [list]
    exact mapped.represents
  apart page member := by
    rw [(same page (mapped.user page member).2).2]
    exact mapped.apart page member

end Mapped

end Kernel

end FosKernel
