import Mathlib.Tactic.Tauto
import FosKernel.Inc.Layout

/-!
# Page-table entries

An x86 page-table entry as a frame number and twelve permission bits, with the
bits that `mmu.h` names and the algebra of setting, clearing and testing them.
-/

namespace FosKernel

/-- The low twelve bits of a page-table entry. -/
abbrev Perm := BitVec 12

def permPresent : Perm := 0x001#12
def permWriteable : Perm := 0x002#12
def permUser : Perm := 0x004#12
def permUsed : Perm := 0x020#12
def permModified : Perm := 0x040#12
def permBuffered : Perm := 0x200#12
def permUHPage : Perm := 0x400#12
def permAvailable : Perm := 0xE00#12

namespace Perm

/-- Some bit of a mask is set. -/
def has (perm mask : Perm) : Bool := perm &&& mask != 0#12

@[simp] theorem has_or (left right mask : Perm) :
    has (left ||| right) mask = (has left mask || has right mask) := by
  rw [Bool.eq_iff_iff]
  simp only [has, BitVec.and_or_distrib_right, bne_iff_ne, ne_eq, BitVec.or_eq_zero_iff,
    Bool.or_eq_true]
  tauto

/-- Testing a joined mask tests either mask. -/
theorem has_mask_or (perm left right : Perm) :
    has perm (left ||| right) = (has perm left || has perm right) := by
  rw [Bool.eq_iff_iff]
  simp only [has, BitVec.and_or_distrib_left, bne_iff_ne, ne_eq, BitVec.or_eq_zero_iff,
    Bool.or_eq_true]
  tauto

/-- Masking tests the intersection of the masks. -/
theorem has_and (perm kept mask : Perm) : has (perm &&& kept) mask = has perm (kept &&& mask) := by
  simp only [has, BitVec.and_assoc]

/-- Bits outside the cleared ones survive clearing. -/
theorem has_clear_of_disjoint (perm : Perm) {cleared mask : Perm}
    (disjoint : ~~~cleared &&& mask = mask) : has (perm &&& ~~~cleared) mask = has perm mask := by
  rw [has_and, disjoint]

/-- Cleared bits are not set. -/
theorem has_clear_of_subset (perm : Perm) {cleared mask : Perm}
    (subset : ~~~cleared &&& mask = 0#12) : has (perm &&& ~~~cleared) mask = false := by
  rw [has_and, subset]
  simp [has]

/-- A bit that survives masking was set. -/
theorem has_of_and {perm kept mask : Perm} (set : has (perm &&& kept) mask = true) :
    has perm mask = true := by
  simp only [has, bne_iff_ne, ne_eq] at set ⊢
  intro absent
  apply set
  rw [BitVec.and_assoc, BitVec.and_comm kept, ← BitVec.and_assoc, absent, BitVec.zero_and]

end Perm

/-- A page-table entry. -/
structure PageTableEntry where
  frame : Nat
  perm : Perm
  deriving DecidableEq, Repr

namespace PageTableEntry

/-- The entry 0. -/
def zero : PageTableEntry := ⟨0, 0#12⟩

/-- `PERM_PRESENT` is set. -/
def present (entry : PageTableEntry) : Bool := Perm.has entry.perm permPresent

/-- The test of `get_frame_info`: a frame number other than 0, or a present or buffered page. -/
def holdsFrame (entry : PageTableEntry) : Bool :=
  entry.frame != 0 || Perm.has entry.perm (permPresent ||| permBuffered)

/-- What `unmap_frame` leaves of an entry: its available bits. -/
def unmapped (entry : PageTableEntry) : PageTableEntry := ⟨0, entry.perm &&& permAvailable⟩

/-- `ptr_page_table[PTX(va)] |= set; ptr_page_table[PTX(va)] &= ~clear`. -/
def setPerms (entry : PageTableEntry) (set clear : Perm) : PageTableEntry :=
  { entry with perm := (entry.perm ||| set) &&& ~~~clear }

@[simp] theorem setPerms_frame (entry : PageTableEntry) (set clear : Perm) :
    (entry.setPerms set clear).frame = entry.frame := rfl

theorem setPerms_clear_perm (entry : PageTableEntry) (clear : Perm) :
    (entry.setPerms 0 clear).perm = entry.perm &&& ~~~clear := by
  change (entry.perm ||| 0#12) &&& ~~~clear = _
  rw [BitVec.or_zero]

/-- Clearing permissions makes no entry present. -/
theorem present_of_clear {entry : PageTableEntry} {clear : Perm}
    (present : (entry.setPerms 0 clear).present = true) : entry.present = true := by
  unfold PageTableEntry.present at *
  rw [setPerms_clear_perm] at present
  exact Perm.has_of_and present

/-- Clearing the same bits twice is clearing them once. -/
theorem setPerms_clear_clear (entry : PageTableEntry) (clear : Perm) :
    (entry.setPerms 0 clear).setPerms 0 clear = entry.setPerms 0 clear := by
  unfold setPerms
  change PageTableEntry.mk _ (((entry.perm ||| 0#12) &&& ~~~clear ||| 0#12) &&& ~~~clear) = _
  rw [BitVec.or_zero, BitVec.or_zero, BitVec.and_assoc, BitVec.and_self]
  change _ = PageTableEntry.mk _ ((entry.perm ||| 0#12) &&& ~~~clear)
  rw [BitVec.or_zero]

/-- Setting and clearing other bits leaves a bit alone. -/
theorem setPerms_has (entry : PageTableEntry) {set clear mask : Perm} (unset : set &&& mask = 0#12)
    (kept : ~~~clear &&& mask = mask) :
    Perm.has (entry.setPerms set clear).perm mask = Perm.has entry.perm mask := by
  unfold setPerms
  rw [Perm.has_clear_of_disjoint _ kept, Perm.has_or]
  simp [Perm.has, unset]

@[simp] theorem zero_not_present : zero.present = false := rfl

/-- A present entry holds a frame. -/
theorem holdsFrame_of_present {entry : PageTableEntry} (present : entry.present = true) :
    entry.holdsFrame = true := by
  unfold PageTableEntry.present at present
  simp [holdsFrame, Perm.has_mask_or, present]

/-- An entry that holds no frame is not present. -/
theorem not_present_of_not_holdsFrame {entry : PageTableEntry} (empty : entry.holdsFrame = false) :
    entry.present = false := by
  cases present : entry.present with
  | false => rfl
  | true => rw [holdsFrame_of_present present] at empty; exact empty

/-- No bit outside the available ones survives unmapping. -/
theorem unmapped_has (entry : PageTableEntry) {mask : Perm}
    (outside : permAvailable &&& mask = 0#12) :
    Perm.has entry.unmapped.perm mask = false := by
  unfold unmapped
  rw [Perm.has_and, outside]
  simp [Perm.has]

@[simp] theorem unmapped_not_present (entry : PageTableEntry) : entry.unmapped.present = false :=
  entry.unmapped_has (by decide)

end PageTableEntry

end FosKernel
