import FosKernel.Trap.ForeignBytes

/-!
# The first touch of a page

A page that is in no page file keeps the bytes that its frame had before. The faults
of an environment in two kernels that differ in foreign bytes run in lockstep when
the frame that a fault takes holds the same bytes in both: when it is the first free
one in both, or when the environment gives up a frame of its own for it.
-/

namespace FosKernel

namespace Memory

/-- `allocate_frame` looks at no byte. -/
theorem allocateFrame_withBytes (memory : Memory) (bytes : Nat → Nat → UInt8) :
    ({ memory with bytes := bytes } : Memory).allocateFrame =
      memory.allocateFrame.map fun (frame, taken) => (frame, { taken with bytes := bytes }) := by
  unfold allocateFrame
  cases memory.freeFrameList.first <;> rfl

end Memory

namespace Kernel

variable {left right : Kernel} {env va : Nat} {faulted faulted' : Nat → Prop} {slot : Slot}
  {frame : Nat} {taken : Memory}

/-- The other kernel takes the same frame. -/
theorem Fetch.withContents (fetch : Fetch left env va slot frame taken)
    (bytes frames : Nat → Nat → UInt8) :
    Fetch (left.withContents bytes frames) env va slot frame { taken with bytes := bytes } where
  located := fetch.located
  absent := fetch.absent
  allocated := by
    change ({ left.memory with bytes := bytes } : Memory).allocateFrame = _
    rw [Memory.allocateFrame_withBytes, fetch.allocated, Option.map_some]

/-- The steps that every branch takes to bring in a page: allocate a frame, map it and read the page
from the page file. -/
def takeFrame (kernel : Kernel) (env va : Nat) (perm : Perm) :
    Except Stop (Nat × Bool × Kernel) :=
  match kernel.memory.allocateFrame with
  | none => .error .outOfMemory
  | some (frame, memory) =>
      match memory.mapFrame (kernel.directory env) frame va perm with
      | none => .error .panic
      | some memory => do
          let (found, kernel) ← { kernel with memory := memory }.pfReadEnvPage env va
          return (frame, found, kernel)

theorem loadPage_eq_takeFrame (kernel : Kernel) (env va : Nat) (perm : Perm) :
    kernel.loadPage env va perm =
      (do
        let (frame, found, kernel) ← kernel.takeFrame env va perm
        if found ∨ inHeapOrStack va then return kernel
        else
          let memory := kernel.memory.unmapFrame (kernel.directory env) va
          let memory := memory.freeFrame frame
          throw (.envExit { kernel with memory := memory })) := by
  unfold loadPage takeFrame
  cases kernel.memory.allocateFrame with
  | none => rfl
  | some result =>
      obtain ⟨frame, taken⟩ := result
      dsimp only
      cases taken.mapFrame (kernel.directory env) frame va perm with
      | none => rfl
      | some mapped =>
          dsimp only
          cases ({ kernel with memory := mapped } : Kernel).pfReadEnvPage env va <;> rfl

theorem Fetch.takeFrame_of_stored (fetch : Fetch left env va slot frame taken) (perm : Perm)
    (stored : (left.envs env).diskFrame va ≠ 0) :
    left.takeFrame env va perm = .ok (frame, true, { left with memory := fetch.filled perm }) := by
  simp only [takeFrame, fetch.allocated, fetch.mapFrame_eq perm,
    fetch.pfReadEnvPage_of_stored perm stored]
  rfl

theorem Fetch.takeFrame_of_unstored (fetch : Fetch left env va slot frame taken) (perm : Perm)
    (unstored : (left.envs env).diskFrame va = 0) :
    left.takeFrame env va perm =
      .ok (frame, false, { left with memory := taken.installFrame slot frame va perm }) := by
  simp only [takeFrame, fetch.allocated, fetch.mapFrame_eq perm, pfReadEnvPage_of_unstored unstored]
  rfl

/-- A fault of the page takes a frame. -/
def Takes (kernel : Kernel) (env va : Nat) : Prop :=
  if kernel.pageRepAlgoType = .optimal then
    kernel.memory.getFrameInfo (kernel.directory env) va = none
  else
    (kernel.envs env).pageWsList.length < (kernel.envs env).pageWsMaxSize ∨
      kernel.pageRepAlgoType.Replaces ∧ ¬ kernel.Skips env va

/-- The victim of a replacement, and the kernel when it is evicted. -/
inductive Chooses (kernel : Kernel) (env : Nat) : Nat → Kernel → Prop
  | clock {victim : Nat} {searched : Kernel}
      (algorithm : kernel.pageRepAlgoType = .clock)
      (found : kernel.clockVictim env ((kernel.envs env).pageWsList.length + 2) =
        .ok (victim, searched)) : Chooses kernel env victim searched
  | lru {victim : Nat} (found : kernel.lruVictim env = some victim) :
      Chooses kernel env victim kernel
  | modifiedClock {victim : Nat} {searched : Kernel}
      (algorithm : kernel.pageRepAlgoType = .modifiedClock)
      (found : kernel.modifiedClockVictim env ((kernel.envs env).pageWsList.length + 2) =
        .ok (victim, searched)) :
      Chooses kernel env victim
        (searched.setHand env (nextOrFirst (searched.envs env).pageWsList victim))

/-- A replacement frees a frame of the environment: the working set is full, the algorithm finds its
victim there, and every page of the working set is private. -/
structure Recycles (kernel : Kernel) (env : Nat) : Prop where
  replaces : kernel.pageRepAlgoType.Replaces
  full : (kernel.envs env).pageWsList.length = (kernel.envs env).pageWsMaxSize
  hand : kernel.pageRepAlgoType ≠ .lruTimeApprox → kernel.HandListed env
  own : ∀ element ∈ (kernel.envs env).pageWsList, kernel.Private env (kernel.elementVa element)

/-- Clearing a bit of its entry leaves a page private. -/
theorem Private.of_cleared {after : Kernel} {page : Nat} (own : left.Private env page)
    (frames : after.memory.frames = left.memory.frames)
    (directories : after.memory.directories = left.memory.directories)
    (directory : after.directory env = left.directory env)
    (entries : ∀ slot, after.memory.tables slot = left.memory.tables slot ∨
      ∃ clear, ~~~clear &&& (permPresent ||| permBuffered) = permPresent ||| permBuffered ∧
        after.memory.tables slot = (left.memory.tables slot).setPerms 0 clear) :
    after.Private env page := by
  obtain ⟨slot, located, holds, last, user⟩ := own
  refine ⟨slot, ?_, ?_, ?_, user⟩
  · rw [directory, Memory.slot_congr directories, located]
  · rcases entries slot with same | ⟨clear, kept, cleared⟩
    · rw [same, holds]
    · rw [cleared, PageTableEntry.holdsFrame, PageTableEntry.setPerms_has _ (by simp) kept]
      exact holds
  · rcases entries slot with same | ⟨clear, kept, cleared⟩
    · rw [same, frames, last]
    · rw [cleared, frames, PageTableEntry.setPerms_frame, last]

/-- A private page stays private when it is written back. -/
theorem Private.writeBack {victim : Nat} (own : left.Private env (left.elementVa victim)) :
    Ends (left.writeBack env victim)
      (fun written => written.Private env (written.elementVa victim)) fun _ => True := by
  obtain ⟨slot, located, holds, last, user⟩ := own
  apply (writeBack_ends left env victim located user).mono _ fun _ _ => trivial
  rintro after ⟨disk, directory, memory, writes, rfl, same⟩
  have directory' : ({ left.withDisk env disk directory with memory := memory } :
    Kernel).directory env =
      left.directory env := withDisk_directory ..
  refine Private.of_cleared ⟨slot, located, holds, last, user⟩ ?_ ?_ directory' ?_
  · rcases same with rfl | rfl <;> rfl
  · rcases same with rfl | rfl <;> rfl
  · intro other
    rcases same with rfl | rfl
    · exact .inl rfl
    · change Function.update left.memory.tables slot _ other = _ ∨ ∃ clear, _ ∧
        Function.update left.memory.tables slot _ other = _
      by_cases here : other = slot
      · subst here
        rw [Function.update_self]
        exact .inr ⟨permModified, by decide, rfl⟩
      · rw [Function.update_of_ne here]
        exact .inl rfl

/-- A private page stays private in a search. -/
theorem Private.searched {after : Kernel} {page : Nat} (own : left.Private env page)
    (searched : Searched env left after) : after.Private env page := by
  have withdraws := searched.withdraws
  obtain ⟨⟨tables, hand, rfl⟩, entries⟩ := searched
  refine own.of_cleared rfl rfl (withdraws.directory env) fun slot => ?_
  exact (entries slot).imp_right fun cleared => ⟨permUsed, by decide, cleared⟩

/-- The victim's page is private. -/
theorem Recycles.chooses {victim : Nat} {found : Kernel} (recycles : left.Recycles env)
    (chooses : left.Chooses env victim found) : found.Private env (found.elementVa victim) := by
  have located : left.Located env := by
    intro element member
    obtain ⟨slot, place, -⟩ := recycles.own element member
    exact ⟨slot, place⟩
  have chosen : ∀ searched, Searched env left searched →
    victim ∈ (left.envs env).pageWsList →
      searched.Private env (searched.elementVa victim) := by
    intro searched search member
    have va : searched.elementVa victim = left.elementVa victim := by
      unfold elementVa
      rw [search.withdraws.elements]
    rw [va]
    exact (recycles.own victim member).searched search
  cases chooses with
  | clock algorithm found =>
      have searchable : left.Searchable env :=
        ⟨recycles.hand (by rw [algorithm]; nofun), located⟩
      have bound := Nat.lt_of_le_of_lt (left.usedCount_le env) (Nat.lt_add_of_pos_right Nat.two_pos)
      obtain ⟨member, search⟩ := (clockVictim_ends env _ left searchable bound).of_ok found
      exact chosen _ search member
  | lru found =>
      rcases left.lruVictim_cases env with ⟨none, -⟩ | ⟨oldest, same, front, back, split, -⟩
      · rw [none] at found
        cases found
      · obtain rfl := Option.some.inj (found.symm.trans same)
        exact chosen left (.refl left env) (by simp [split])
  | modifiedClock algorithm found =>
      have searchable : left.Searchable env :=
        ⟨recycles.hand (by rw [algorithm]; nofun), located⟩
      obtain ⟨member, search⟩ :=
        (modifiedClockVictim_ends env _ left searchable recycles.full.symm).of_ok found
      exact chosen _ (search.trans (.setHand ..)) member

namespace Related

/-- Giving the environment a frame that holds the same bytes in both kernels. -/
theorem gain {left' right' : Kernel} (related : Related env faulted left right)
    (same : right' = left'.withContents right'.memory.bytes right'.disk.frames)
    (entries : ∀ page, (left'.pageEntry env page).frame = (left.pageEntry env page).frame ∨
      (left'.pageEntry env page).frame = frame)
    (kept : ∀ other, other ≠ frame → left'.memory.bytes other = left.memory.bytes other ∧
      right'.memory.bytes other = right.memory.bytes other)
    (gained : right'.memory.bytes frame = left'.memory.bytes frame)
    (disk : left'.disk = left.disk) (disk' : right'.disk = right.disk)
    (envs : left'.envs = left.envs) : Related env (fun _ => False) left' right' := by
  have bytes : ∀ other, right.memory.bytes other = left.memory.bytes other →
      right'.memory.bytes other = left'.memory.bytes other := by
    intro other equal
    by_cases here : other = frame
    · rw [here]
      exact gained
    · rw [(kept other here).1, (kept other here).2]
      exact equal
  refine ⟨same, bytes 0 related.reserved, fun page => ?_, fun page stored => ?_,
    fun _ listed => listed.elim⟩
  · rcases entries page with old | new
    · rw [old]
      exact bytes _ (related.frames page)
    · rw [new]
      exact gained
  · rw [envs] at stored ⊢
    rw [disk, disk']
    exact related.stored page stored

/-- After one entry was written, every page has its old frame or the entry's. -/
theorem pageEntry_frame_cases (kernel : Kernel) (memory : Memory) (env : Nat)
    {entry : PageTableEntry}
    (directories : memory.directories = kernel.memory.directories)
    (tables : memory.tables = Function.update kernel.memory.tables slot entry) (page : Nat) :
    (({ kernel with memory := memory } : Kernel).pageEntry env page).frame =
        (kernel.pageEntry env page).frame ∨
      (({ kernel with memory := memory } : Kernel).pageEntry env page).frame = entry.frame := by
  have slots : ({ kernel with memory := memory } : Kernel).memory.slot
      (({ kernel with memory := memory } : Kernel).directory env) page =
        kernel.memory.slot (kernel.directory env) page := Memory.slot_congr directories ..
  cases located : kernel.memory.slot (kernel.directory env) page with
  | none =>
      left
      unfold Kernel.pageEntry Memory.entry
      rw [slots, located]
      rfl
  | some place =>
      rw [pageEntry_eq located, pageEntry_eq (slots.trans located)]
      change (memory.tables place).frame = _ ∨ (memory.tables place).frame = _
      rw [tables]
      by_cases here : place = slot
      · rw [here, Function.update_self]
        exact .inr rfl
      · rw [Function.update_of_ne here]
        exact .inl rfl

/-- A frame without contents of its own is given to a page. -/
theorem installed (related : Related env faulted left right)
    (fetch : Fetch left env va slot frame taken) (first : FirstSame left right) (perm : Perm) :
    Related env (fun _ => False) { left with memory := taken.installFrame slot frame va perm }
      { right with
        memory := ({ taken with bytes := right.memory.bytes } : Memory).installFrame slot frame va
          perm } := by
  have held := first frame (Memory.allocateFrame_references fetch.allocated).1
  obtain ⟨bytes, frames, rfl⟩ := related.exists_contents
  obtain ⟨-, directories, kept⟩ := Memory.allocateFrame_spec fetch.allocated
  refine related.gain rfl (pageEntry_frame_cases left (taken.installFrame slot frame va perm) env
    directories (fetch.installed_tables perm))
    (fun other _ => ⟨congrFun kept other, rfl⟩) ?_ rfl rfl rfl
  exact held.trans (congrFun kept frame).symm

/-- A frame that was filled from the page file is given to a page. -/
theorem filled (related : Related env faulted left right)
    (fetch : Fetch left env va slot frame taken)
    (fetch' : Fetch right env va slot frame { taken with bytes := right.memory.bytes })
    (stored : (left.envs env).diskFrame va ≠ 0) (perm : Perm) :
    Related env (fun _ => False) { left with memory := fetch.filled perm }
      { right with memory := fetch'.filled perm } := by
  have held := related.stored va stored
  obtain ⟨bytes, frames, rfl⟩ := related.exists_contents
  obtain ⟨-, directories, -⟩ := Memory.allocateFrame_spec fetch.allocated
  have entries : ∀ page,
      (({ left with memory := fetch.filled perm } : Kernel).pageEntry env page).frame =
          (left.pageEntry env page).frame ∨
        (({ left with memory := fetch.filled perm } : Kernel).pageEntry env page).frame = frame :=
    pageEntry_frame_cases left (fetch.filled perm) env directories (fetch.filled_tables perm)
  refine related.gain rfl entries (fun other different => ?_) ?_ rfl rfl rfl
  · exact ⟨Function.update_of_ne different .., Function.update_of_ne different ..⟩
  · have content : (fetch.filled perm).bytes frame =
        left.disk.frames ((left.envs env).diskFrame va) :=
      Function.update_self ..
    have content' : (fetch'.filled perm).bytes frame = frames ((left.envs env).diskFrame va) :=
      Function.update_self ..
    exact content'.trans (held.trans content.symm)

/-- Bringing in an absent page, whose frame is filled from the page file or holds the same bytes in
both kernels. -/
theorem takeFrame (related : Related env faulted left right)
    (absent : left.pagePresent env va = false) (listed : faulted va) (perm : Perm) :
    Lockstep (fun (frame, found, after) (frame', found', after') =>
        frame = frame' ∧ found = found' ∧ Related env (fun _ => False) after after') Stop.Same
      (left.takeFrame env va perm) (right.takeFrame env va perm) := by
  have allocated' : right.memory.allocateFrame = left.memory.allocateFrame.map
      fun (frame, taken) => (frame, { taken with bytes := right.memory.bytes }) := by
    rw [← Memory.allocateFrame_withBytes, related.same]
    rfl
  cases allocated : left.memory.allocateFrame with
  | none =>
      rw [allocated, Option.map_none] at allocated'
      simp only [Kernel.takeFrame, allocated, allocated']
      exact .error trivial
  | some result =>
      obtain ⟨frame, taken⟩ := result
      rw [allocated, Option.map_some] at allocated'
      cases located : left.memory.slot (left.directory env) va with
      | none =>
          have located' := (related.slot (left.directory env) va).trans located
          rw [← related.directory env] at located'
          have panics : ∀ kernel : Kernel, ∀ memory : Memory,
              kernel.memory.allocateFrame = some (frame, memory) →
                kernel.memory.slot (kernel.directory env) va = none →
                  kernel.takeFrame env va perm = .error .panic := by
            intro kernel memory allocated missing
            obtain ⟨-, directories, -⟩ := Memory.allocateFrame_spec allocated
            have unmapped : memory.mapFrame (kernel.directory env) frame va perm = none := by
              rw [Memory.mapFrame, Memory.slot_congr directories, missing]
            simp only [Kernel.takeFrame, allocated, unmapped]
          rw [panics left taken allocated located, panics right _ allocated' located']
          exact .error trivial
      | some slot =>
          rw [pagePresent_eq located] at absent
          have fetch : Fetch left env va slot frame taken := ⟨located, absent, allocated⟩
          have fetch' : Fetch right env va slot frame
              { taken with bytes := right.memory.bytes } := by
            have moved := fetch.withContents right.memory.bytes right.disk.frames
            rwa [← related.same] at moved
          by_cases unstored : (left.envs env).diskFrame va = 0
          · rw [fetch.takeFrame_of_unstored perm unstored,
              fetch'.takeFrame_of_unstored perm (by rwa [related.envs])]
            exact .ok ⟨rfl, rfl, related.installed fetch
              (related.taken va listed unstored) perm⟩
          · rw [fetch.takeFrame_of_stored perm unstored,
              fetch'.takeFrame_of_stored perm (by rwa [related.envs])]
            exact .ok ⟨rfl, rfl, related.filled fetch fetch' unstored perm⟩

/-- Loading an absent page. -/
theorem loadPage (related : Related env faulted left right)
    (absent : left.pagePresent env va = false) (listed : faulted va) (perm : Perm) :
    Lockstep (Related env fun _ => False) Stop.Same (left.loadPage env va perm)
      (right.loadPage env va perm) := by
  rw [loadPage_eq_takeFrame, loadPage_eq_takeFrame]
  apply (related.takeFrame absent listed perm).bind
  rintro ⟨frame, found, after⟩ ⟨frame', found', after'⟩ ⟨rfl, rfl, related⟩
  dsimp only
  split
  · exact .ok related
  · exact .error trivial

/-- Creating an element. -/
theorem createElement (related : Related env faulted left right) (va : Nat) :
    Lockstep (fun (element, created) (element', created') =>
        element = element' ∧ Related env faulted created created') Stop.Same
      (left.createElement va) (right.createElement va) := by
  obtain ⟨bytes, frames, rfl⟩ := related.exists_contents
  unfold Kernel.createElement
  split
  · exact .ok ⟨rfl, related.congr rfl rfl rfl (fun _ => rfl) rfl rfl⟩
  · exact .error trivial

/-- Appending an element for a page. -/
theorem appendElement (related : Related env faulted left right) (va : Nat) :
    Lockstep (Related env faulted) Stop.Same (left.appendElement env va)
      (right.appendElement env va) := by
  unfold Kernel.appendElement
  apply (related.createElement va).bind
  rintro ⟨element, created⟩ ⟨element', created'⟩ ⟨rfl, related⟩
  dsimp only
  rw [related.envs]
  exact .ok (related.setEnv rfl rfl)

/-- The placement branch. -/
theorem placement (related : Related env faulted left right)
    (absent : left.pagePresent env va = false) (listed : faulted va) :
    Lockstep (Related env fun _ => False) Stop.Same (left.placement env va)
      (right.placement env va) := by
  unfold Kernel.placement
  apply (related.loadPage absent listed _).bind
  intro loaded loaded' related
  apply (related.appendElement va).bind
  intro appended appended' related
  dsimp only
  rw [related.envs]
  exact .ok (related.setEnv rfl rfl)

/-- Removing a victim from the working set. -/
theorem removeRotated (related : Related env faulted left right) (victim : Nat) :
    Lockstep (Related env faulted) Stop.Same (left.removeRotated env victim)
      (right.removeRotated env victim) := by
  unfold Kernel.removeRotated
  dsimp only
  rw [related.envs]
  cases rotateTo victim (left.envs env).pageWsList ((left.envs env).pageWsList.length + 1) with
  | ok list => exact .ok (related.setEnv rfl rfl)
  | error halt => exact .error (Stop.Same.refl halt)

/-- Marking the page at the hand. -/
theorem touchHand (related : Related env faulted left right) :
    Lockstep (Related env faulted) Stop.Same (left.touchHand env) (right.touchHand env) := by
  unfold Kernel.touchHand
  rw [related.envs]
  cases (left.envs env).pageLastWsElement with
  | none => exact .error trivial
  | some hand =>
      dsimp only
      rw [related.elementVa]
      exact related.setPagePermissions env _ permUsed 0

/-- Copying the working set at the first fault under OPTIMAL. -/
theorem initializeActive (related : Related env faulted left right) :
    Lockstep (Related env faulted) Stop.Same (left.initializeActive env)
      (right.initializeActive env) := by
  have initialized : right.optimalInitialized = left.optimalInitialized := by
    rw [related.same]
    rfl
  have started : Related env faulted
      { left with optimalInitialized := true, pageActiveWsList := [] }
      { right with optimalInitialized := true, pageActiveWsList := [] } := by
    obtain ⟨bytes, frames, rfl⟩ := related.exists_contents
    exact related.congr rfl rfl rfl (fun _ => rfl) rfl rfl
  have copied : (right.envs env).pageWsList = (left.envs env).pageWsList := by rw [related.envs]
  unfold Kernel.initializeActive
  rw [initialized, copied]
  split
  · exact .ok related
  · apply Lockstep.foldlM (Related env faulted) _ _ _ started
    intro copied copied' element _ related
    rw [related.elementVa]
    apply (related.createElement _).bind
    rintro ⟨copy, created⟩ ⟨copy', created'⟩ ⟨rfl, related⟩
    obtain ⟨bytes, frames, rfl⟩ := related.exists_contents
    exact .ok (related.congr rfl rfl rfl (fun _ => rfl) rfl rfl)

/-- Making a page present under OPTIMAL. -/
theorem makePresent (related : Related env faulted left right)
    (listed : left.memory.getFrameInfo (left.directory env) va = none → faulted va) :
    Lockstep (Related env fun _ => False) Stop.Same (left.makePresent env va)
      (right.makePresent env va) := by
  have fewer : Related env (fun _ => False) left right := related.weaken fun _ listed => listed.elim
  have frameInfo : right.memory.getFrameInfo (right.directory env) (roundDown va pageSize) =
      left.memory.getFrameInfo (left.directory env) (roundDown va pageSize) := by
    rw [related.same]
    rfl
  have taking : ∀ kernel : Kernel, kernel.memory.getFrameInfo (kernel.directory env)
      (roundDown va pageSize) = none →
        Perm.has (kernel.pagePermissions env va) permPresent = false →
          kernel.makePresent env va = (do
            let (_, _, kernel) ← kernel.takeFrame env va
              (permUser ||| permPresent ||| permWriteable)
            return kernel) := by
    intro kernel unmapped absent
    unfold Kernel.makePresent Kernel.takeFrame
    rw [absent]
    simp only [Bool.false_eq_true, ↓reduceIte, unmapped]
    cases kernel.memory.allocateFrame with
    | none => rfl
    | some result =>
        obtain ⟨frame, taken⟩ := result
        dsimp only
        cases taken.mapFrame (kernel.directory env) frame va _ with
        | none => rfl
        | some mapped =>
            dsimp only
            cases ({ kernel with memory := mapped } : Kernel).pfReadEnvPage env va <;> rfl
  cases present : Perm.has (left.pagePermissions env va) permPresent with
  | true =>
      have present' := present
      rw [← related.pagePermissions] at present'
      unfold Kernel.makePresent
      dsimp only
      rw [if_pos present, if_pos present']
      exact .ok fewer
  | false =>
      cases mapped : left.memory.getFrameInfo (left.directory env) (roundDown va pageSize) with
      | some frame =>
          have mapped' := frameInfo.trans mapped
          have present' := present
          rw [← related.pagePermissions] at present'
          unfold Kernel.makePresent
          simp only [present, present', mapped, mapped', Bool.false_eq_true, ↓reduceIte]
          exact fewer.setPagePermissions env _ permPresent 0
      | none =>
          rw [taking left mapped present, taking right (frameInfo.trans mapped)
            (by rwa [related.pagePermissions])]
          have absent : left.pagePresent env va = false := by
            cases located : left.memory.slot (left.directory env) va with
            | none =>
                unfold Kernel.pagePresent Memory.entry
                rw [located]
                rfl
            | some slot =>
                rw [pagePermissions_eq located] at present
                exact (pagePresent_eq located).trans present
          rw [Memory.getFrameInfo, Memory.entry, Memory.slot_roundDown] at mapped
          apply (related.takeFrame absent (listed mapped) _).bind
          rintro ⟨_, _, after⟩ ⟨_, _, after'⟩ ⟨-, -, related⟩
          exact .ok related

/-- Emptying the active working set. -/
theorem clearActive (related : Related env faulted left right) :
    Lockstep (Related env faulted) Stop.Same (left.clearActive env) (right.clearActive env) := by
  unfold Kernel.clearActive
  rw [related.active]
  have cleared : Lockstep (Related env faulted) Stop.Same
      (left.pageActiveWsList.foldlM (fun kernel element =>
        kernel.setPagePermissions env (kernel.elementVa element) 0 permPresent) left)
      (left.pageActiveWsList.foldlM (fun kernel element =>
        kernel.setPagePermissions env (kernel.elementVa element) 0 permPresent) right) := by
    apply Lockstep.foldlM (Related env faulted) _ _ _ related
    intro before before' element _ related
    rw [related.elementVa]
    exact related.setPagePermissions env _ 0 permPresent
  apply cleared.bind
  intro after after' related
  obtain ⟨bytes, frames, rfl⟩ := related.exists_contents
  exact .ok (related.congr rfl rfl rfl (fun _ => rfl) rfl rfl)

/-- The OPTIMAL branch. -/
theorem optimalReplacement (related : Related env faulted left right)
    (listed : left.memory.getFrameInfo (left.directory env) va = none → faulted va) :
    Lockstep (Related env fun _ => False) Stop.Same (left.optimalReplacement env va)
      (right.optimalReplacement env va) := by
  unfold Kernel.optimalReplacement
  apply (related.initializeActive.and_left (initializeActive_ends left env)).bind
  intro initialized initialized' ⟨related, memory, envs, _⟩
  have frameInfo : initialized.memory.getFrameInfo (initialized.directory env) va =
      left.memory.getFrameInfo (left.directory env) va := by
    unfold Kernel.directory
    rw [memory, envs]
  apply (related.makePresent (frameInfo ▸ listed)).bind
  intro loaded loaded' related
  have inWs : loaded'.isPageInWs loaded'.pageActiveWsList (roundDown va pageSize) =
      loaded.isPageInWs loaded.pageActiveWsList (roundDown va pageSize) := by
    unfold isPageInWs Kernel.elementVa
    rw [related.active, related.elements]
  rw [inWs]
  split
  · exact .ok related
  · -- the active working set may be emptied before the page enters it
    have entered : ∀ cleared cleared', Related env (fun _ => False) cleared cleared' →
        Lockstep (Related env fun _ => False) Stop.Same
          (do
            let (element, kernel) ← cleared.createElement va
            let kernel := { kernel with pageActiveWsList := kernel.pageActiveWsList ++ [element] }
            let faultedEnv := kernel.envs env
            let ref : PageRefElement := ⟨roundDown va pageSize⟩
            return kernel.setEnv env
              { faultedEnv with referenceStreamList := faultedEnv.referenceStreamList ++ [ref] })
          (do
            let (element, kernel) ← cleared'.createElement va
            let kernel := { kernel with pageActiveWsList := kernel.pageActiveWsList ++ [element] }
            let faultedEnv := kernel.envs env
            let ref : PageRefElement := ⟨roundDown va pageSize⟩
            return kernel.setEnv env
              { faultedEnv with referenceStreamList :=
                  faultedEnv.referenceStreamList ++ [ref] }) := by
      intro cleared cleared' related
      apply (related.createElement va).bind
      rintro ⟨element, created⟩ ⟨element', created'⟩ ⟨rfl, related⟩
      obtain ⟨bytes, frames, rfl⟩ := related.exists_contents
      have appended : Related env (fun _ => False)
          { created with pageActiveWsList := created.pageActiveWsList ++ [element] }
          { created.withContents bytes frames with
            pageActiveWsList := (created.withContents bytes frames).pageActiveWsList ++
                [element] } :=
        related.congr rfl rfl rfl (fun _ => rfl) rfl rfl
      exact .ok (appended.setEnv rfl rfl)
    dsimp only
    rw [related.active, related.envs]
    split
    · exact related.clearActive.bind entered
    · exact entered _ _ related

/-- The eviction of a victim. The first free frame is then the environment's own if the page is
private. -/
theorem evict (related : Related env faulted left right) (victim : Nat)
    (freed : (∀ page, faulted' page → faulted page) ∨
      left.Private env (left.elementVa victim)) :
    Lockstep (Related env faulted') Stop.Same (left.evict env victim) (right.evict env victim) := by
  have kept : Ends (left.writeBack env victim) (fun written =>
      (∀ page, faulted' page → faulted page) ∨
        written.Private env (written.elementVa victim)) fun _ => True := by
    rcases freed with fewer | own
    · exact .of_returns fun _ _ => .inl fewer
    · exact own.writeBack.mono (fun _ own => .inr own) fun _ _ => trivial
  unfold Kernel.evict
  apply ((related.writeBack victim).and_left kept).bind
  intro written written' ⟨related, freed⟩
  rw [related.elementVa]
  exact .ok (related.unmapPage _ freed)

/-- The LRU branch. -/
theorem lruReplacement (related : Related env faulted left right)
    (absent : left.pagePresent env va = false) (listed : faulted' va)
    (evicts : ∀ victim, left.lruVictim env = some victim →
      Lockstep (Related env faulted') Stop.Same (left.evict env victim) (right.evict env victim)) :
    Lockstep (Related env fun _ => False) Stop.Same (left.lruReplacement env va)
      (right.lruReplacement env va) := by
  unfold Kernel.lruReplacement
  rw [related.lruVictim]
  cases found : left.lruVictim env with
  | none => exact .error trivial
  | some victim =>
      dsimp only
      apply ((evicts victim found).and_left (evict_withdraws left env victim)).bind
      intro evicted evicted' ⟨related, withdraws⟩
      have erased : Withdraws left (evicted.withList env
          ((evicted.envs env).pageWsList.erase victim)) :=
        withdraws.trans (.of_setEnv rfl rfl fun _ member => List.mem_of_mem_erase member)
      rw [related.envs]
      have related : Related env faulted' (evicted.withList env
          ((evicted.envs env).pageWsList.erase victim)) (evicted'.setEnv env
            { evicted.envs env with pageWsList := (evicted.envs env).pageWsList.erase victim }) :=
        related.setEnv rfl rfl
      apply (related.loadPage (erased.absent absent) listed _).bind
      intro loaded loaded' related
      exact related.appendElement va

/-- One round of the handler, from what its eviction and its next round do. -/
theorem pageFaultHandler_round {fuel : Nat} (related : Related env faulted left right)
    (absent : left.pagePresent env va = false)
    (listed : left.pageRepAlgoType = .optimal ∨
      (left.envs env).pageWsList.length < (left.envs env).pageWsMaxSize →
        left.Takes env va → faulted va)
    (listed' : left.Takes env va → faulted' va)
    (evicts : ∀ victim found found', left.Chooses env victim found →
      Related env faulted found found' →
      Lockstep (Related env faulted') Stop.Same (found.evict env victim) (found'.evict env victim))
    (again : ∀ next next', faulted' va → Related env faulted' next next' →
      next.pagePresent env va = false →
        Lockstep (Related env fun _ => False) Stop.Same (next.pageFaultHandler env va fuel)
          (next'.pageFaultHandler env va fuel)) :
    Lockstep (Related env fun _ => False) Stop.Same (left.pageFaultHandler env va (fuel + 1))
      (right.pageFaultHandler env va (fuel + 1)) := by
  have fewer : Related env (fun _ => False) left right := related.weaken fun _ listed => listed.elim
  have inWs : right.isPageInWs left.pageActiveWsList (roundDown va pageSize) =
      left.isPageInWs left.pageActiveWsList (roundDown va pageSize) := by
    unfold isPageInWs Kernel.elementVa
    rw [related.elements]
  unfold Kernel.pageFaultHandler
  dsimp only
  rw [related.active, related.envs, related.algorithm, inWs]
  by_cases optimal : left.pageRepAlgoType = .optimal
  · rw [if_pos optimal, if_pos optimal]
    refine related.optimalReplacement fun unmapped => listed (.inl optimal) ?_
    rw [Takes, if_pos optimal]
    exact unmapped
  · rw [if_neg optimal, if_neg optimal]
    by_cases room : (left.envs env).pageWsList.length < (left.envs env).pageWsMaxSize
    · rw [if_pos room, if_pos room]
      refine related.placement absent (listed (.inr room) ?_)
      rw [Takes, if_neg optimal]
      exact .inl room
    · rw [if_neg room, if_neg room]
      have takes : left.pageRepAlgoType.Replaces → ¬ left.Skips env va → faulted' va := by
        intro replaces handled
        apply listed'
        rw [Takes, if_neg optimal]
        exact .inr ⟨replaces, handled⟩
      have missed : left.isPageInWs left.pageActiveWsList (roundDown va pageSize) = false →
          ¬ left.Skips env va := by
        intro miss skips
        rw [skips.2.2] at miss
        cases miss
      have evicted : ∀ victim found found', left.Chooses env victim found →
        Withdraws left found →
          faulted' va → Related env faulted found found' →
            Lockstep (Related env fun _ => False) Stop.Same
              (do
                let kernel ← found.evict env victim
                let kernel ← kernel.removeRotated env victim
                kernel.pageFaultHandler env va fuel)
              (do
                let kernel ← found'.evict env victim
                let kernel ← kernel.removeRotated env victim
                kernel.pageFaultHandler env va fuel) := by
        intro victim found found' chooses withdraws listed related
        apply ((evicts victim found found' chooses related).and_left
          (evict_withdraws found env victim)).bind
        rintro evicted evicted' ⟨related, withdraws'⟩
        apply ((related.removeRotated victim).and_left
          (removeRotated_withdraws evicted env victim)).bind
        rintro removed removed' ⟨related, withdraws''⟩
        exact again removed removed' listed related
          (((withdraws.trans withdraws').trans withdraws'').absent absent)
      cases algorithm : left.pageRepAlgoType with
      | clock =>
          dsimp only
          cases hit : left.isPageInWs left.pageActiveWsList (roundDown va pageSize) with
          | true => exact fewer.touchHand
          | false =>
              have searched := (clockVictim_searched env ((left.envs env).pageWsList.length + 2)
                left).and (.of_returns fun _ returned => returned)
              apply ((Related.clockVictim _ left right related).and_left searched).bind
              rintro ⟨victim, found⟩ ⟨victim', found'⟩
                ⟨⟨rfl, related⟩, searched, returned⟩
              exact evicted victim found found' (.clock algorithm returned) searched.withdraws
                (takes (by rw [algorithm]; trivial) (missed hit)) related
      | lruTimeApprox =>
          have handled : ¬ left.Skips env va := fun skips => by
            rcases skips.1 with same | same <;> rw [algorithm] at same <;> cases same
          exact related.lruReplacement absent (takes (by rw [algorithm]; trivial) handled)
            fun victim found => evicts victim left right (.lru found) related
      | modifiedClock =>
          dsimp only
          cases hit : left.isPageInWs left.pageActiveWsList (roundDown va pageSize) with
          | true => exact fewer.touchHand
          | false =>
              have searched := (modifiedClockVictim_searched env
                ((left.envs env).pageWsList.length + 2) left).and
                  (.of_returns fun _ returned => returned)
              apply ((Related.modifiedClockVictim _ left right related).and_left searched).bind
              rintro ⟨victim, found⟩ ⟨victim', found'⟩
                ⟨⟨rfl, related⟩, searched, returned⟩
              dsimp only
              rw [related.envs]
              exact evicted victim _ _ (.modifiedClock algorithm returned)
                (searched.withdraws.trans (.setHand ..))
                (takes (by rw [algorithm]; trivial) (missed hit)) (related.setHand _)
      | optimal => exact absurd algorithm optimal
      | lruListsApprox => exact .ok fewer
      | fifo => exact .ok fewer
      | nchanceClock => exact .ok fewer
      | dynamicLocal => exact .ok fewer

/-- The handler runs in lockstep if the first free frame is the same. -/
theorem pageFaultHandler (fuel : Nat) : ∀ left right, Related env faulted left right →
    left.pagePresent env va = false → (left.Takes env va → faulted va) →
      Lockstep (Related env fun _ => False) Stop.Same (left.pageFaultHandler env va fuel)
        (right.pageFaultHandler env va fuel) := by
  induction fuel with
  | zero => exact fun _ _ _ _ _ => .error trivial
  | succ fuel ih =>
      intro left right related absent listed
      refine related.pageFaultHandler_round absent (fun _ => listed) listed
          (fun victim found found' _ related =>
        related.evict victim (.inl fun _ listed => listed)) ?_
      intro next next' listed related absent
      exact ih next next' related absent fun _ => listed

/-- The handler runs in lockstep if it recycles a frame of the environment. -/
theorem pageFaultHandler_of_recycles (related : Related env faulted left right)
    (absent : left.pagePresent env va = false) (recycles : left.Recycles env) (fuel : Nat) :
    Lockstep (Related env fun _ => False) Stop.Same (left.pageFaultHandler env va fuel)
      (right.pageFaultHandler env va fuel) := by
  cases fuel with
  | zero => exact .error trivial
  | succ fuel =>
      have replaces := recycles.replaces
      refine @pageFaultHandler_round left right env va faulted
        (fun _ => True) fuel related absent ?_
        (fun _ => trivial) ?_ ?_
      · rintro (optimal | room) _
        · rw [optimal] at replaces
          exact replaces.elim
        · exact absurd recycles.full (Nat.ne_of_lt room)
      · intro victim found found' chooses related
        exact related.evict victim (.inr (recycles.chooses chooses))
      · intro next next' listed related absent
        exact related.pageFaultHandler fuel _ _ absent fun _ => listed

end Related

end Kernel

end FosKernel
