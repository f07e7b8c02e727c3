import FosKernel.Trap.FaultGuard
import FosKernel.Trap.HeapResidency

/-!
# The marks of the user heap

Which requests `sys_allocate_user_mem` and `sys_free_user_mem` accept, and which
entries of page tables they mark and unmark. The two range tests are the same, with
sums that wrap at 2^32 and a strict bound at the end of the heap. A legal range is
still not freed where a page table is missing: the panic ends the process.
-/

namespace FosKernel

namespace Kernel

variable {kernel before middle after : Kernel} {env va curr fuel : Nat} {addresses : Set Nat}

/-- The entry is in a page table that exists, and marks its page as one of the user heap. -/
def Marked (kernel : Kernel) (slot : Slot) : Prop :=
  slot.1 < kernel.nextTable ∧ Perm.has (kernel.memory.tables slot).perm permUHPage = true

/-- The entries are marked and unmarked at some addresses of an environment only. -/
structure MarksAt (env : Nat) (addresses : Set Nat) (before after : Kernel) : Prop where
  located : ∀ va slot, before.memory.slot (before.directory env) va = some slot →
    after.memory.slot (after.directory env) va = some slot
  marks : ∀ slot, (after.Marked slot ↔ before.Marked slot) ∨
    ∃ va ∈ addresses, after.memory.slot (after.directory env) va = some slot

namespace MarksAt

theorem refl (kernel : Kernel) : MarksAt env addresses kernel kernel :=
  ⟨fun _ _ located => located, fun _ => .inl .rfl⟩

theorem trans (first : MarksAt env addresses before middle)
    (second : MarksAt env addresses middle after) : MarksAt env addresses before after where
  located va slot located := second.located va slot (first.located va slot located)
  marks slot := by
    rcases second.marks slot with same | within
    · rcases first.marks slot with same' | ⟨va, member, located⟩
      · exact .inl (same.trans same')
      · exact .inr ⟨va, member, second.located va slot located⟩
    · exact .inr within

end MarksAt

/-- The entries are unmarked, and all page tables are kept. -/
structure UnmarksAt (env : Nat) (addresses : Set Nat) (before after : Kernel) : Prop where
  marksAt : MarksAt env addresses before after
  slots : ∀ va, after.memory.slot (after.directory env) va =
    before.memory.slot (before.directory env) va

namespace UnmarksAt

theorem refl (kernel : Kernel) : UnmarksAt env addresses kernel kernel :=
    ⟨.refl kernel, fun _ => rfl⟩

theorem trans (first : UnmarksAt env addresses before middle)
    (second : UnmarksAt env addresses middle after) : UnmarksAt env addresses before after :=
  ⟨first.marksAt.trans second.marksAt, fun va => (second.slots va).trans (first.slots va)⟩

end UnmarksAt

theorem KeepsMarks.marked_iff (keeps : KeepsMarks before after) (slot : Slot) :
    after.Marked slot ↔ before.Marked slot := by
  have inside : permAvailable &&& permUHPage = permUHPage := by decide
  unfold Marked Perm.has
  rw [keeps.nextTable, ← inside, ← BitVec.and_assoc, ← BitVec.and_assoc,
    keeps.memory.available]

theorem KeepsMarks.unmarksAt (keeps : KeepsMarks before after) :
    UnmarksAt env addresses before after :=
  ⟨⟨fun va _ located => (keeps.slot_eq env va).trans located,
    fun slot => .inl (keeps.marked_iff slot)⟩,
    keeps.slot_eq env⟩

/-- The page is in memory if it is in the page file, so the kernel reads it back without a fault. -/
def Readable (kernel : Kernel) (env va : Nat) : Prop :=
  (kernel.envs env).diskFrame va ≠ 0 → kernel.pagePresent env va = true

/-- The pages of the page file that were in memory still are, or have left the page file. -/
structure KeepsReadable (env : Nat) (before after : Kernel) : Prop where
  settles : Settles before after
  readable : ∀ va < 2 ^ 32, before.Readable env va → after.Readable env va

theorem KeepsReadable.trans (first : KeepsReadable env before middle)
    (second : KeepsReadable env middle after) : KeepsReadable env before after where
  settles := first.settles.trans second.settles
  readable va bound readable := second.readable va bound (first.readable va bound readable)

end Kernel

namespace FaultLog

open Kernel

variable {log : FaultLog} {env fuel rounds va curr size : Nat} {addresses : Set Nat}

/-- Where the call returns, it has kept the page tables, and the marks outside some addresses. -/
def Unmarks (env : Nat) (addresses : Set Nat) (log : FaultLog)
    (call : Except FaultHalt FaultLog) : Prop :=
  Ends call (fun after => UnmarksAt env addresses log.kernel after.kernel) fun _ => True

/-- The rule of sequences. -/
theorem Unmarks.bind {call : Except FaultHalt FaultLog}
    {rest : FaultLog → Except FaultHalt FaultLog}
    (marks : Unmarks env addresses log call)
    (next : ∀ middle : FaultLog, UnmarksAt env addresses log.kernel middle.kernel →
      Unmarks env addresses middle (rest middle)) : Unmarks env addresses log (call >>= rest) :=
  Ends.bind marks fun middle first =>
    Ends.mono (next middle first) (fun _ second => first.trans second) fun _ _ => trivial

/-- Calls that keep the marks. -/
theorem Unmarks.lift {call : Except Stop Kernel} (kept : MarksKept va log.kernel call) :
    Unmarks env addresses log (log.lift call) := by
  unfold FaultLog.lift
  cases call with
  | error stop => exact .error trivial
  | ok kernel => exact .ok (kept.of_ok rfl).unmarksAt

end FaultLog

end FosKernel
