import FosKernel.Lib.Lockstep
import FosKernel.Trap.UserAccess

/-!
# Kernels that differ in foreign bytes

Two kernels that are the same but for bytes of frames and disk frames that an
environment does not hold. The fault handler looks at no byte, so faults of the
environment run in lockstep; the kernels stay so related when the frame that a fault
takes holds the same bytes in both.
-/

namespace FosKernel

/-- Both calls stop in the same way. -/
def Stop.Same : Stop → Stop → Prop
  | .envExit _, .envExit _ => True
  | .panic, .panic => True
  | .outOfMemory, .outOfMemory => True
  | .outOfPageFile, .outOfPageFile => True
  | .nullPointer, .nullPointer => True
  | .hang, .hang => True
  | _, _ => False

theorem Stop.Same.refl (halt : Stop) : halt.Same halt := by
  cases halt <;> trivial

namespace Memory

/-- `decrement_references` looks at no byte. -/
theorem decrementReferences_withBytes (memory : Memory) (bytes : Nat → Nat → UInt8)
    (frame : Nat) :
    ({ memory with bytes := bytes } : Memory).decrementReferences frame =
      { memory.decrementReferences frame with bytes := bytes } := by
  simp only [decrementReferences]
  split <;> rfl

/-- `unmap_frame` looks at no byte. -/
theorem unmapFrame_withBytes (memory : Memory) (bytes : Nat → Nat → UInt8)
    (directory va : Nat) :
    ({ memory with bytes := bytes } : Memory).unmapFrame directory va =
      { memory.unmapFrame directory va with bytes := bytes } := by
  cases located : memory.slot directory va with
  | none =>
      rw [unmapFrame_of_not_located located,
        @unmapFrame_of_not_located { memory with bytes := bytes } directory va located]
  | some slot =>
      cases holds : (memory.tables slot).holdsFrame with
      | false =>
          rw [unmapFrame_of_not_holdsFrame located holds,
            @unmapFrame_of_not_holdsFrame { memory with bytes := bytes } directory va
              slot located holds]
      | true =>
          rw [unmapFrame_of_holdsFrame located holds,
            @unmapFrame_of_holdsFrame { memory with bytes := bytes } directory va
              slot located holds,
            decrementReferences_withBytes]
          rfl

/-- `decrement_references` puts its frame first or leaves the free frames alone. -/
theorem decrementReferences_first (memory : Memory) (frame : Nat) :
    (memory.decrementReferences frame).freeFrameList.first = some frame ∨
      (memory.decrementReferences frame).freeFrameList.first = memory.freeFrameList.first := by
  simp only [decrementReferences]
  split
  · exact .inl (freeFrame_first ..)
  · exact .inr rfl

end Memory

namespace Kernel

/-- The kernel with other bytes in its frames and disk frames. -/
def withContents (kernel : Kernel) (bytes frames : Nat → Nat → UInt8) : Kernel :=
  { kernel with
    memory := { kernel.memory with bytes := bytes }
    disk := { kernel.disk with frames := frames } }

@[simp] theorem withContents_bytes (kernel : Kernel) (bytes frames : Nat → Nat → UInt8) :
    (kernel.withContents bytes frames).memory.bytes = bytes := rfl

@[simp] theorem withContents_frames (kernel : Kernel) (bytes frames : Nat → Nat → UInt8) :
    (kernel.withContents bytes frames).disk.frames = frames := rfl

/-- The first free frame holds the same bytes in both kernels. -/
def FirstSame (left right : Kernel) : Prop :=
  ∀ frame, left.memory.freeFrameList.first = some frame →
    right.memory.bytes frame = left.memory.bytes frame

/-- The kernels differ in bytes that the environment does not hold. For the given faulted pages the
first free frame is the same too, unless they are in the page file. Physical frame 0 is reserved. -/
structure Related (env : Nat) (faulted : Nat → Prop) (left right : Kernel) : Prop where
  same : right = left.withContents right.memory.bytes right.disk.frames
  reserved : right.memory.bytes 0 = left.memory.bytes 0
  frames : ∀ va, right.memory.bytes (left.pageEntry env va).frame =
    left.memory.bytes (left.pageEntry env va).frame
  stored : ∀ va, (left.envs env).diskFrame va ≠ 0 →
    right.disk.frames ((left.envs env).diskFrame va) =
      left.disk.frames ((left.envs env).diskFrame va)
  taken : ∀ va, faulted va → (left.envs env).diskFrame va = 0 → FirstSame left right

variable {left right left' right' : Kernel} {env va : Nat} {faulted faulted' : Nat → Prop}

namespace Related

theorem exists_contents (related : Related env faulted left right) :
    ∃ bytes frames, right = left.withContents bytes frames :=
  ⟨_, _, related.same⟩

section Fields

variable (related : Related env faulted left right)

include related

theorem envs : right.envs = left.envs := by
  rw [related.same]
  rfl

theorem elementVa : right.elementVa = left.elementVa := by
  rw [related.same]
  rfl

theorem elements : right.elements = left.elements := by
  rw [related.same]
  rfl

theorem directory (other : Nat) : right.directory other = left.directory other := by
  rw [related.same]
  rfl

theorem slot (directory va : Nat) :
    right.memory.slot directory va = left.memory.slot directory va := by
  rw [related.same]
  rfl

theorem pagePermissions (other va : Nat) :
    right.pagePermissions other va = left.pagePermissions other va := by
  rw [related.same]
  rfl

theorem pageEntry (other va : Nat) : right.pageEntry other va = left.pageEntry other va := by
  rw [related.same]
  rfl

theorem algorithm : right.pageRepAlgoType = left.pageRepAlgoType := by
  rw [related.same]
  rfl

theorem active : right.pageActiveWsList = left.pageActiveWsList := by
  rw [related.same]
  rfl

end Fields

/-- Steps that write no byte and give the environment no frame keep the kernels related. -/
theorem congr (related : Related env faulted left right)
    (same : right' = left'.withContents right.memory.bytes right.disk.frames)
    (bytes : left'.memory.bytes = left.memory.bytes)
    (frames : left'.disk.frames = left.disk.frames)
    (entries : ∀ va, (left'.pageEntry env va).frame = (left.pageEntry env va).frame)
    (diskFrames : (left'.envs env).diskEnvPgdir = (left.envs env).diskEnvPgdir)
    (first : left'.memory.freeFrameList.first = left.memory.freeFrameList.first) :
    Related env faulted left' right' := by
  subst same
  have diskFrame := Env.diskFrame_congr diskFrames
  refine ⟨rfl, ?_, fun va => ?_, fun va stored => ?_, fun va listed unstored frame head => ?_⟩
  · rw [withContents_bytes, bytes]
    exact related.reserved
  · rw [withContents_bytes, bytes, entries]
    exact related.frames va
  · rw [diskFrame] at stored ⊢
    rw [withContents_frames, frames]
    exact related.stored va stored
  · rw [diskFrame] at unstored
    rw [first] at head
    rw [withContents_bytes, bytes]
    exact related.taken va listed unstored frame head

theorem weaken (related : Related env faulted left right)
    (fewer : ∀ va, faulted' va → faulted va) :
    Related env faulted' left right :=
  { related with taken := fun va listed => related.taken va (fewer va listed) }

/-- Changing permissions. -/
theorem setPagePermissions (related : Related env faulted left right) (other va : Nat)
    (set clear : Perm) : Lockstep (Related env faulted) Stop.Same
      (left.setPagePermissions other va set clear)
          (right.setPagePermissions other va set clear) := by
  obtain ⟨bytes, frames, rfl⟩ := related.exists_contents
  cases located : left.memory.slot (left.directory other) va with
  | none =>
      rw [setPagePermissions_of_missing left located,
        setPagePermissions_of_missing (left.withContents bytes frames) located]
      exact .error trivial
  | some slot =>
      rw [setPagePermissions_eq left located,
        setPagePermissions_eq (left.withContents bytes frames) located]
      refine .ok (related.congr rfl rfl rfl (fun page => ?_) rfl rfl)
      unfold Kernel.pageEntry Memory.entry
      change (((left.memory.slot (left.directory env) page).map
        (Function.update left.memory.tables slot _)).getD _).frame = _
      cases left.memory.slot (left.directory env) page with
      | none => rfl
      | some place =>
          by_cases here : place = slot
          · subst here
            rw [Option.map_some, Function.update_self]
            rfl
          · rw [Option.map_some, Function.update_of_ne here]
            rfl

/-- Changing the fields of an environment other than its page and disk directories. -/
theorem setEnv (related : Related env faulted left right) {other : Nat} {value : Env}
    (directory : value.envPageDirectory = (left.envs other).envPageDirectory)
    (stored : value.diskEnvPgdir = (left.envs other).diskEnvPgdir) :
    Related env faulted (left.setEnv other value) (right.setEnv other value) := by
  obtain ⟨bytes, frames, rfl⟩ := related.exists_contents
  refine related.congr rfl rfl rfl (fun page => ?_) ?_ rfl
  · apply congrArg PageTableEntry.frame
    apply pageEntry_congr
    · rfl
    · rfl
    · exact left.setEnv_envs other value
        (fun changed old => changed.envPageDirectory = old.envPageDirectory) directory
        (fun _ => rfl) env
  · exact left.setEnv_envs other value (fun changed old => changed.diskEnvPgdir = old.diskEnvPgdir)
      stored (fun _ => rfl) env

/-- Moving the hand. -/
theorem setHand (related : Related env faulted left right) (hand : Option Nat) :
    Related env faulted (left.setHand env hand) (right.setHand env hand) := by
  obtain ⟨bytes, frames, rfl⟩ := related.exists_contents
  exact related.setEnv rfl rfl

/-- The search of CLOCK. -/
theorem clockVictim (fuel : Nat) : ∀ left right, Related env faulted left right →
    Lockstep (fun (victim, searched) (victim', searched') =>
        victim = victim' ∧ Related env faulted searched searched') Stop.Same
      (left.clockVictim env fuel) (right.clockVictim env fuel) := by
  induction fuel with
  | zero => exact fun _ _ _ => .error trivial
  | succ fuel ih =>
      intro left right related
      unfold Kernel.clockVictim
      simp only [related.envs, related.elementVa, related.pagePermissions]
      cases (left.envs env).pageLastWsElement with
      | none => exact .error trivial
      | some hand =>
          dsimp only
          split
          · apply (related.setPagePermissions env (left.elementVa hand) 0 permUsed).bind
            intro cleared cleared' related
            rw [related.envs]
            exact ih _ _ (related.setHand _)
          · exact .ok ⟨rfl, related⟩

/-- Try 1 of Modified CLOCK. -/
theorem tryUnmodified (count : Nat) : ∀ left right, Related env faulted left right →
    Lockstep (fun (victim, searched) (victim', searched') =>
        victim = victim' ∧ Related env faulted searched searched') Stop.Same
      (left.tryUnmodified env count) (right.tryUnmodified env count) := by
  induction count with
  | zero => exact fun _ _ related => .ok ⟨rfl, related⟩
  | succ count ih =>
      intro left right related
      unfold Kernel.tryUnmodified
      simp only [related.envs, related.elementVa, related.pagePermissions]
      cases (left.envs env).pageLastWsElement with
      | none => exact .error trivial
      | some hand =>
          dsimp only
          split
          · exact .ok ⟨rfl, related⟩
          · exact ih _ _ (related.setHand _)

/-- Try 2 of Modified CLOCK. -/
theorem tryUnused (count : Nat) : ∀ left right, Related env faulted left right →
    Lockstep (fun (victim, searched) (victim', searched') =>
        victim = victim' ∧ Related env faulted searched searched') Stop.Same
      (left.tryUnused env count) (right.tryUnused env count) := by
  induction count with
  | zero => exact fun _ _ related => .ok ⟨rfl, related⟩
  | succ count ih =>
      intro left right related
      unfold Kernel.tryUnused
      simp only [related.envs, related.elementVa, related.pagePermissions]
      cases (left.envs env).pageLastWsElement with
      | none => exact .error trivial
      | some hand =>
          dsimp only
          split
          · apply (related.setPagePermissions env (left.elementVa hand) 0 permUsed).bind
            intro cleared cleared' related
            rw [related.envs]
            exact ih _ _ (related.setHand _)
          · exact .ok ⟨rfl, related⟩

/-- The search of Modified CLOCK. -/
theorem modifiedClockVictim (fuel : Nat) : ∀ left right, Related env faulted left right →
    Lockstep (fun (victim, searched) (victim', searched') =>
        victim = victim' ∧ Related env faulted searched searched') Stop.Same
      (left.modifiedClockVictim env fuel) (right.modifiedClockVictim env fuel) := by
  induction fuel with
  | zero => exact fun _ _ _ => .error trivial
  | succ fuel ih =>
      intro left right related
      unfold Kernel.modifiedClockVictim
      simp only [related.envs]
      apply (tryUnmodified _ left right related).bind
      rintro ⟨victim, searched⟩ ⟨victim', searched'⟩ ⟨rfl, related⟩
      cases victim with
      | some victim => exact .ok ⟨rfl, related⟩
      | none =>
          apply (tryUnused _ searched searched' related).bind
          rintro ⟨victim, searched⟩ ⟨victim', searched'⟩ ⟨rfl, related⟩
          cases victim with
          | some victim => exact .ok ⟨rfl, related⟩
          | none => exact ih _ _ related

theorem lruVictim (related : Related env faulted left right) :
    right.lruVictim env = left.lruVictim env := by
  unfold Kernel.lruVictim
  rw [related.envs, related.elements]

end Related

/-- Giving a page a disk frame changes no other page's. -/
theorem diskFrame_setDiskFrame_cases (value : Env) (dfn va page : Nat) :
    (value.setDiskFrame page dfn).diskFrame va = value.diskFrame va ∨
      (value.setDiskFrame page dfn).diskFrame va = dfn ∧
        value.diskFrame va = value.diskFrame page := by
  by_cases region : pdx va = pdx page
  · by_cases index : ptx va = ptx page
    · right
      simp [Env.diskFrame, Env.setDiskFrame, region, index]
    · left
      unfold Env.diskFrame Env.setDiskFrame
      simp only [region, Function.update_self, Function.update_of_ne index]
      cases value.diskEnvPgdir with
      | none => rfl
      | some tables =>
          rw [Option.getD_some]
          cases held : tables (pdx page) <;> simp [held]
  · left
    unfold Env.diskFrame Env.setDiskFrame
    simp only [Function.update_of_ne region]
    cases value.diskEnvPgdir <;> rfl

/-- The kernel after the bytes of a frame were written to a disk frame. -/
def written (kernel : Kernel) (env : Nat) (value : Env) (list : IntrusiveList Nat)
    (dfn frame : Nat) :
    Kernel :=
  ({ kernel with
    disk := {
      frames := Function.update kernel.disk.frames dfn (kernel.memory.bytes frame)
      freeFrameList := list } } : Kernel).setEnv env value

/-- Writing a page to its disk frame. -/
theorem writeDiskPage_eq_written {kernel : Kernel} {slot : Slot}
    (located : kernel.memory.slot (kernel.directory env) va = some slot) :
    kernel.writeDiskPage env va =
      (kernel.written env (kernel.envs env) kernel.disk.freeFrameList
        ((kernel.envs env).diskFrame va) (kernel.pageEntry env va).frame).setPagePermissions
          env va 0
          permModified := by
  have same : kernel.written env (kernel.envs env) kernel.disk.freeFrameList
      ((kernel.envs env).diskFrame va) (kernel.pageEntry env va).frame =
        { kernel with
          disk := { kernel.disk with
            frames := Function.update kernel.disk.frames ((kernel.envs env).diskFrame va)
              (kernel.memory.bytes (kernel.memory.tables slot).frame) } } := by
    rw [pageEntry_eq located]
    simp [written, setEnv]
  rw [same, writeDiskPage_eq kernel located]
  generalize Function.update kernel.disk.frames _ _ = frames
  exact (setPagePermissions_eq { kernel with disk := { kernel.disk with frames := frames } }
    located 0
    permModified).symm

/-- Writing a page to a new disk frame. -/
theorem addEnvPage_eq_written {kernel : Kernel} {slot : Slot} {dfn : Nat} {disk : Disk}
    (located : kernel.memory.slot (kernel.directory env) va = some slot) (user : va < kernelBase)
    (unstored : (kernel.envs env).diskFrame va = 0)
    (allocated : kernel.disk.allocateDiskFrame = some (dfn, disk)) :
    (do
      let kernel ← kernel.pfAddEmptyEnvPage env va
      kernel.writeDiskPage env va) =
      (kernel.written env ((kernel.envs env).setDiskFrame va dfn) disk.freeFrameList dfn
        (kernel.pageEntry env va).frame).setPagePermissions env va 0 permModified := by
  have frames : disk.frames = kernel.disk.frames := by
    unfold Disk.allocateDiskFrame at allocated
    split at allocated
    · cases allocated
    · obtain ⟨-, rfl⟩ := Prod.mk.inj (Option.some.inj allocated)
      rfl
  rw [pfAddEmptyEnvPage_eq kernel user unstored allocated]
  change (kernel.withDisk env disk _).writeDiskPage env va = _
  have located' : (kernel.withDisk env disk
      ((kernel.envs env).setDiskFrame va dfn).diskEnvPgdir).memory.slot
        ((kernel.withDisk env disk
          ((kernel.envs env).setDiskFrame va dfn).diskEnvPgdir).directory env) va = some slot := by
    rwa [withDisk_directory]
  rw [writeDiskPage_eq_written located']
  have value : (kernel.withDisk env disk ((kernel.envs env).setDiskFrame va dfn).diskEnvPgdir).envs
      env = (kernel.envs env).setDiskFrame va dfn := withDisk_self ..
  have entry : (kernel.withDisk env disk
    ((kernel.envs env).setDiskFrame va dfn).diskEnvPgdir).pageEntry
      env va = kernel.pageEntry env va := by
    apply pageEntry_congr
    · rfl
    · rfl
    · exact withDisk_directory ..
  rw [value, entry, Env.diskFrame_setDiskFrame]
  congr 1
  simp [written, withDisk, setEnv, frames]

namespace Related

/-- Writing the bytes of a frame that the environment holds to a disk frame. -/
theorem written (related : Related env faulted left right) {value : Env}
    (list : IntrusiveList Nat) (dfn page : Nat)
    (directory : value.envPageDirectory = (left.envs env).envPageDirectory)
    (diskFrames : ∀ va, value.diskFrame va = (left.envs env).diskFrame va ∨
      value.diskFrame va = dfn ∧ (left.envs env).diskFrame va = 0) :
    Related env faulted (left.written env value list dfn (left.pageEntry env page).frame)
      (right.written env value list dfn (right.pageEntry env page).frame) := by
  have same := related.frames page
  obtain ⟨bytes, frames, rfl⟩ := related.exists_contents
  have envEq : (left.written env value list dfn (left.pageEntry env page).frame).envs env = value :=
    Function.update_self ..
  have entries : ∀ va, (left.written env value list dfn
      (left.pageEntry env page).frame).pageEntry env va = left.pageEntry env va := by
    intro va
    apply pageEntry_congr
    · rfl
    · rfl
    · exact (congrArg Env.envPageDirectory envEq).trans directory
  refine ⟨rfl, related.reserved, fun va => ?_, fun va stored => ?_,
    fun va listed unstored frame head => ?_⟩
  · rw [entries]
    exact related.frames va
  · rw [envEq] at stored ⊢
    change Function.update frames dfn (bytes (left.pageEntry env page).frame) _ =
      Function.update left.disk.frames dfn (left.memory.bytes (left.pageEntry env page).frame) _
    by_cases here : value.diskFrame va = dfn
    · rw [here, Function.update_self, Function.update_self]
      exact same
    · rw [Function.update_of_ne here, Function.update_of_ne here]
      rcases diskFrames va with kept | ⟨new, -⟩
      · rw [kept] at stored ⊢
        exact related.stored va stored
      · exact absurd new here
  · rw [envEq] at unstored
    have old : (left.envs env).diskFrame va = 0 := by
      rcases diskFrames va with kept | ⟨-, old⟩
      · rw [← kept, unstored]
      · exact old
    exact related.taken va listed old frame head

/-- The kernels take the same disk frame. -/
theorem allocateDiskFrame (related : Related env faulted left right) :
    right.disk.allocateDiskFrame = left.disk.allocateDiskFrame.map fun (dfn, disk) =>
      (dfn, { disk with frames := right.disk.frames }) := by
  obtain ⟨bytes, frames, rfl⟩ := related.exists_contents
  have same : (left.withContents bytes frames).disk.freeFrameList = left.disk.freeFrameList := rfl
  unfold Disk.allocateDiskFrame
  rw [same]
  cases left.disk.freeFrameList.first <;> rfl

/-- Writing a page to the page file. -/
theorem pfUpdateEnvPage (related : Related env faulted left right) (va : Nat) :
    Lockstep (Related env faulted) Stop.Same (left.pfUpdateEnvPage env va)
      (right.pfUpdateEnvPage env va) := by
  have slots : right.memory.slot (right.directory env) va =
      left.memory.slot (left.directory env) va := by
    rw [related.directory, related.slot]
  have missing : ∀ kernel : Kernel, kernel.memory.slot (kernel.directory env) va = none →
      kernel.writeDiskPage env va = .error .nullPointer := by
    intro kernel missing
    simp only [Kernel.writeDiskPage, missing]
  unfold Kernel.pfUpdateEnvPage
  rw [related.envs]
  split
  · exact .error trivial
  · rename_i user
    have user := Nat.lt_of_not_le user
    split
    · rename_i unstored
      have unstored' : (right.envs env).diskFrame va = 0 := by rwa [related.envs]
      split
      · have allocated' := related.allocateDiskFrame
        cases allocated : left.disk.allocateDiskFrame with
        | none =>
            have exhausted : ∀ kernel : Kernel, kernel.disk.allocateDiskFrame = none →
                (kernel.envs env).diskFrame va = 0 →
                  kernel.pfAddEmptyEnvPage env va = .error .outOfPageFile := by
              intro kernel exhausted unstored
              simp only [pfAddEmptyEnvPage, Nat.not_le.mpr user, unstored, exhausted, ↓reduceIte]
            rw [allocated, Option.map_none] at allocated'
            rw [exhausted left allocated unstored, exhausted right allocated' unstored']
            exact .error trivial
        | some result =>
            obtain ⟨dfn, disk⟩ := result
            rw [allocated, Option.map_some] at allocated'
            cases located : left.memory.slot (left.directory env) va with
            | none =>
                rw [located] at slots
                rw [pfAddEmptyEnvPage_eq left user unstored allocated,
                  pfAddEmptyEnvPage_eq right user unstored' allocated']
                change Lockstep _ _ ((left.withDisk ..).writeDiskPage env va)
                  ((right.withDisk ..).writeDiskPage env va)
                rw [missing _ (by rwa [withDisk_directory]),
                  missing _ (by rwa [withDisk_directory])]
                exact .error trivial
            | some slot =>
                have diskFrames : ∀ page, ((left.envs env).setDiskFrame va dfn).diskFrame page =
                    (left.envs env).diskFrame page ∨
                      ((left.envs env).setDiskFrame va dfn).diskFrame page = dfn ∧
                        (left.envs env).diskFrame page = 0 := by
                  intro page
                  rcases diskFrame_setDiskFrame_cases (left.envs env) dfn page va with
                    kept | ⟨new, old⟩
                  · exact .inl kept
                  · exact .inr ⟨new, old.trans unstored⟩
                rw [addEnvPage_eq_written located user unstored allocated,
                  addEnvPage_eq_written (slots.trans located) user unstored' allocated',
                    related.envs]
                exact (related.written disk.freeFrameList dfn va (by rfl)
                  diskFrames).setPagePermissions env va 0 permModified
      · exact .error trivial
    · cases located : left.memory.slot (left.directory env) va with
      | none =>
          rw [missing left located, missing right (slots.trans located)]
          exact .error trivial
      | some slot =>
          rw [writeDiskPage_eq_written located, writeDiskPage_eq_written (slots.trans located),
            related.envs, show right.disk.freeFrameList = left.disk.freeFrameList by
              rw [related.same]
              rfl]
          exact (related.written left.disk.freeFrameList _ va rfl
            fun page => .inl rfl).setPagePermissions env va 0 permModified

/-- The write-back of a victim. -/
theorem writeBack (related : Related env faulted left right) (victim : Nat) :
    Lockstep (Related env faulted) Stop.Same (left.writeBack env victim)
      (right.writeBack env victim) := by
  unfold Kernel.writeBack
  rw [related.elementVa]
  simp only [related.pagePermissions]
  split
  · exact related.pfUpdateEnvPage _
  · exact .ok related

end Related

/-- The kernel after a page was unmapped. -/
def unmapPage (kernel : Kernel) (env va : Nat) : Kernel :=
  { kernel with memory := kernel.memory.unmapFrame (kernel.directory env) va }

theorem unmapPage_withContents (kernel : Kernel) (bytes frames : Nat → Nat → UInt8)
    (env va : Nat) :
    (kernel.withContents bytes frames).unmapPage env va =
      (kernel.unmapPage env va).withContents bytes frames := by
  have unmapped := kernel.memory.unmapFrame_withBytes bytes (kernel.directory env) va
  simp only [unmapPage, withContents] at unmapped ⊢
  exact congrArg (fun memory : Memory =>
    ({ kernel with
      memory := memory
      disk := { kernel.disk with frames := frames } } : Kernel)) unmapped

/-- Unmapping a page leaves every entry its frame, or none. -/
theorem unmapPage_pageEntry_frame (kernel : Kernel) (env va page : Nat) :
    ((kernel.unmapPage env va).pageEntry env page).frame = (kernel.pageEntry env page).frame ∨
      ((kernel.unmapPage env va).pageEntry env page).frame = 0 := by
  have slots : (kernel.unmapPage env va).memory.slot (kernel.directory env) page =
      kernel.memory.slot (kernel.directory env) page :=
    Memory.slot_congr (Memory.unmapFrame_directories ..) ..
  cases place : kernel.memory.slot (kernel.directory env) page with
  | none =>
      right
      have missing : (kernel.unmapPage env va).memory.entry
          ((kernel.unmapPage env va).directory env) page = none := by
        rw [Memory.entry]
        exact congrArg (Option.map _) (slots.trans place)
      rw [pageEntry, missing]
      rfl
  | some other =>
      rw [pageEntry_eq place, pageEntry_eq (slots.trans place)]
      change ((kernel.memory.unmapFrame (kernel.directory env) va).tables other).frame = _ ∨
        ((kernel.memory.unmapFrame (kernel.directory env) va).tables other).frame = 0
      cases located : kernel.memory.slot (kernel.directory env) va with
      | none =>
          left
          rw [Memory.unmapFrame_of_not_located located]
      | some slot =>
          rw [Memory.unmapFrame_tables located]
          by_cases here : other = slot
          · subst here
            rw [Function.update_self]
            split
            · exact .inr rfl
            · exact .inl rfl
          · rw [Function.update_of_ne here]
            exact .inl rfl

/-- Unmapping a page puts its frame first among the free ones or leaves these alone. -/
theorem unmapPage_first (kernel : Kernel) (env va : Nat) :
    (kernel.unmapPage env va).memory.freeFrameList.first = some (kernel.pageEntry env va).frame ∨
      (kernel.unmapPage env va).memory.freeFrameList.first = kernel.memory.freeFrameList.first := by
  unfold unmapPage
  dsimp only
  cases located : kernel.memory.slot (kernel.directory env) va with
  | none =>
      rw [Memory.unmapFrame_of_not_located located]
      exact .inr rfl
  | some slot =>
      cases holds : (kernel.memory.tables slot).holdsFrame with
      | false =>
          rw [Memory.unmapFrame_of_not_holdsFrame located holds]
          exact .inr rfl
      | true =>
          rw [Memory.unmapFrame_of_holdsFrame located holds, Memory.setEntry_freeFrameList,
            pageEntry_eq located]
          exact Memory.decrementReferences_first ..

/-- The user page is mapped to a frame that has no other reference. -/
def Private (kernel : Kernel) (env va : Nat) : Prop :=
  ∃ slot, kernel.memory.slot (kernel.directory env) va = some slot ∧
    (kernel.memory.tables slot).holdsFrame = true ∧
    (kernel.memory.frames (kernel.memory.tables slot).frame).references = 1 ∧ va < kernelBase

theorem Private.unmapPage_first {kernel : Kernel} (own : kernel.Private env va) :
    (kernel.unmapPage env va).memory.freeFrameList.first =
        some (kernel.pageEntry env va).frame := by
  obtain ⟨slot, located, holds, last, -⟩ := own
  unfold unmapPage
  dsimp only
  rw [Memory.unmapFrame_of_holdsFrame located holds, Memory.setEntry_freeFrameList,
    pageEntry_eq located, Memory.decrementReferences_of_one last, Memory.freeFrame_first]

namespace Related

/-- Unmapping a page of the environment puts a frame that the environment held first among the free
ones, or leaves these alone. -/
theorem unmapPage (related : Related env faulted left right) (va : Nat)
    (freed : (∀ page, faulted' page → faulted page) ∨ left.Private env va) :
    Related env faulted' (left.unmapPage env va) (right.unmapPage env va) := by
  obtain ⟨bytes, frames, rfl⟩ := related.exists_contents
  have entries := left.unmapPage_pageEntry_frame env va
  have first : (left.unmapPage env va).memory.freeFrameList.first =
      some (left.pageEntry env va).frame ∨
    (left.unmapPage env va).memory.freeFrameList.first = left.memory.freeFrameList.first ∧
      ∀ page, faulted' page → faulted page := by
    rcases freed with fewer | own
    · exact (left.unmapPage_first env va).imp_right fun kept => ⟨kept, fewer⟩
    · exact .inl own.unmapPage_first
  have bytesEq : (left.unmapPage env va).memory.bytes = left.memory.bytes :=
    left.memory.unmapFrame_bytes ..
  rw [unmapPage_withContents]
  refine ⟨rfl, ?_, fun page => ?_, related.stored, fun page listed unstored frame head => ?_⟩
  · rw [withContents_bytes, bytesEq]
    exact related.reserved
  · rw [withContents_bytes, bytesEq]
    rcases entries page with same | zero
    · rw [same]
      exact related.frames page
    · rw [zero]
      exact related.reserved
  · rw [withContents_bytes, bytesEq]
    rcases first with own | ⟨kept, fewer⟩
    · obtain rfl := Option.some.inj (own.symm.trans head)
      exact related.frames va
    · rw [kept] at head
      exact related.taken page (fewer page listed) unstored frame head

end Related

end Kernel

end FosKernel
