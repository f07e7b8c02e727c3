import FosKernel.Trap.FirstTouch

/-!
# What recycled frames leak

Runs of an environment in two kernels that differ in what others wrote into frames
the environment does not hold. A first touch that takes a frame with the same bytes,
or a frame of the environment's own, keeps the runs alike; a first touch that takes a
frame which another environment wrote and freed reads its bytes.
-/

namespace FosKernel

namespace Kernel

variable {left right before after kernel : Kernel} {env va : Nat} {faulted : Nat → Prop}

/-- A fault of the page takes a frame and reads nothing into it. -/
structure FirstTouch (kernel : Kernel) (env va : Nat) : Prop where
  absent : kernel.pagePresent env va = false
  unstored : (kernel.envs env).diskFrame va = 0
  located : (kernel.memory.slot (kernel.directory env) va).isSome = true
  takes : kernel.Takes env va

/-- A first touch takes a frame with the same bytes in both kernels, or one of the environment's
own. -/
def TakesAlike (env : Nat) (left right : Kernel) (va : Nat) : Prop :=
  left.FirstTouch env va → FirstSame left right ∨ left.Recycles env

/-- What others do leaves the pages of the environment and the reserved frame alone. -/
structure Elsewhere (env : Nat) (before after : Kernel) : Prop where
  envs : after.envs env = before.envs env
  entries : ∀ va, after.pageEntry env va = before.pageEntry env va
  bytes : ∀ frame, (frame = 0 ∨ ∃ va, (before.pageEntry env va).frame = frame) →
    after.memory.bytes frame = before.memory.bytes frame
  stored : ∀ va, (before.envs env).diskFrame va ≠ 0 →
    after.disk.frames ((before.envs env).diskFrame va) =
      before.disk.frames ((before.envs env).diskFrame va)

/-- Both kernels map the same pages of the environment to frames with the same bytes. -/
def SameView (env : Nat) (left right : Kernel) : Prop :=
  ∀ va, right.pageEntry env va = left.pageEntry env va ∧
    right.memory.bytes (right.pageEntry env va).frame =
      left.memory.bytes (left.pageEntry env va).frame

theorem Related.sameView (related : Related env faulted left right) : SameView env left right := by
  intro va
  rw [related.pageEntry]
  exact ⟨rfl, related.frames va⟩

theorem stampElement_ticked (kernel : Kernel) (env element : Nat) :
    Ends (kernel.stampElement env element) (Ticked kernel) fun _ => True := by
  unfold stampElement
  dsimp only
  split
  · change Ends ((kernel.stamped element _).setPagePermissions env (kernel.elementVa element) 0
      permUsed) _ _
    cases located : kernel.memory.slot (kernel.directory env) (kernel.elementVa element) with
    | none =>
        have missing : ∀ timeStamp, (kernel.stamped element timeStamp).setPagePermissions env
            (kernel.elementVa element) 0 permUsed = .error .panic := fun timeStamp =>
          setPagePermissions_of_missing (kernel.stamped element timeStamp) located 0 permUsed
        rw [missing]
        exact .error trivial
    | some slot =>
        have cleared : ∀ timeStamp, (kernel.stamped element timeStamp).setPagePermissions env
            (kernel.elementVa element) 0 permUsed =
              .ok ((kernel.stamped element timeStamp).clearUsed slot) := fun timeStamp =>
          setPagePermissions_eq (kernel.stamped element timeStamp) located 0 permUsed
        rw [cleared]
        exact .ok ((kernel.stamped_ticked element _).trans (clearUsed_ticked _ slot))
  · exact .ok (kernel.stamped_ticked element _)

theorem updateWsTimeStamps_ticked (kernel : Kernel) (env : Nat) :
    Ends (kernel.updateWsTimeStamps env) (Ticked kernel) fun _ => True := by
  apply Ends.foldlM (Ticked kernel) _ kernel (.refl kernel)
  intro middle element _ ticked
  apply (middle.stampElement_ticked env element).mono _ fun _ _ => trivial
  exact fun after ticked' => ticked.trans ticked'

/-- Time stamps and used bits do not matter for what a replacement frees. -/
theorem Ticked.recycles (ticked : Ticked before after) (recycles : before.Recycles env) :
    after.Recycles env where
  replaces := ticked.algorithm ▸ recycles.replaces
  full := by
    rw [ticked.envs]
    exact recycles.full
  hand := by
    unfold HandListed
    rw [ticked.algorithm, ticked.envs]
    exact recycles.hand
  own := by
    rw [ticked.envs, ticked.vas]
    intro element member
    have frames : after.memory.frames = before.memory.frames := by
      obtain ⟨_, _, rfl⟩ := ticked.shape
      rfl
    have directory : after.directory env = before.directory env := by
      unfold Kernel.directory
      rw [ticked.envs]
    refine (recycles.own element member).of_cleared frames ticked.directories directory
      fun slot => ?_
    exact (ticked.entries slot).imp_right fun cleared => ⟨permUsed, by decide, cleared⟩

/-- A new page table maps no page to a frame. -/
theorem createPageTable_frame (kernel : Kernel) (env va page : Nat) :
    ((kernel.createPageTable env va).pageEntry env page).frame =
      (kernel.pageEntry env page).frame ∨
      ((kernel.createPageTable env va).pageEntry env page).frame = 0 := by
  have zero : ∀ index, (kernel.createPageTable env va).memory.tables (kernel.nextTable, index) =
      .zero := fun index => if_pos rfl
  have held : (kernel.createPageTable env va).memory.directories
      ((kernel.createPageTable env va).directory env) =
        Function.update (kernel.memory.directories (kernel.directory env)) (pdx va)
          (some kernel.nextTable) := Function.update_self ..
  by_cases region : pdx page = pdx va
  · right
    have located : (kernel.createPageTable env va).memory.slot
        ((kernel.createPageTable env va).directory env) page =
            some (kernel.nextTable, ptx page) := by
      rw [Memory.slot, Memory.getPageTable, held, region, Function.update_self, Option.map_some]
    rw [pageEntry_eq located, zero]
    rfl
  · have slots : (kernel.createPageTable env va).memory.slot
        ((kernel.createPageTable env va).directory env) page =
          kernel.memory.slot (kernel.directory env) page := by
      rw [Memory.slot, Memory.getPageTable, held, Function.update_of_ne region]
      rfl
    cases located : kernel.memory.slot (kernel.directory env) page with
    | none =>
        right
        unfold pageEntry Memory.entry
        rw [slots, located]
        rfl
    | some slot =>
        rw [pageEntry_eq located, pageEntry_eq (slots.trans located)]
        by_cases new : slot.1 = kernel.nextTable
        · right
          rw [show slot = (kernel.nextTable, slot.2) by rw [← new], zero]
          rfl
        · left
          exact congrArg PageTableEntry.frame (if_neg new)

namespace Related

/-- Updating the time stamps. -/
theorem updateWsTimeStamps (related : Related env faulted left right) (other : Nat) :
    Lockstep (Related env faulted) Stop.Same (left.updateWsTimeStamps other)
      (right.updateWsTimeStamps other) := by
  unfold Kernel.updateWsTimeStamps
  rw [related.envs]
  apply Lockstep.foldlM (Related env faulted) _ _ _ related
  intro before before' element _ related
  rw [related.elements]
  dsimp only
  rw [related.pagePermissions]
  have stamped : ∀ elements : Nat → WorkingSetElement,
      Related env faulted { before with elements := elements }
          { before' with elements := elements } := by
    intro elements
    obtain ⟨bytes, frames, rfl⟩ := related.exists_contents
    exact related.congr rfl rfl rfl (fun _ => rfl) rfl rfl
  split
  · exact (stamped _).setPagePermissions other _ 0 permUsed
  · exact .ok (stamped _)

/-- A new page table. -/
theorem createPageTable (related : Related env (fun _ => False) left right) (va : Nat) :
    Related env (fun _ => False) (left.createPageTable env va) (right.createPageTable env va) := by
  obtain ⟨bytes, frames, rfl⟩ := related.exists_contents
  exact related.gain rfl (left.createPageTable_frame env va)
    (fun _ _ => ⟨rfl, rfl⟩) related.reserved
    rfl rfl rfl

/-- Noting a fault. -/
theorem notedFault (related : Related env faulted left right) (va : Nat) :
    Related env faulted (left.notedFault env va) (right.notedFault env va) := by
  obtain ⟨bytes, frames, rfl⟩ := related.exists_contents
  exact related.congr rfl rfl rfl (fun _ => rfl) rfl rfl

/-- The fault of a page that is not present. -/
theorem handleFault (related : Related env faulted left right)
    (absent : left.pagePresent env va = false)
    (located : (left.memory.slot (left.directory env) va).isSome = true)
    (alike : left.FirstTouch env va → faulted va ∨ left.Recycles env) (fuel : Nat) :
    Lockstep (Related env fun _ => False) Stop.Same (left.pageFaultHandler env va fuel)
      (right.pageFaultHandler env va fuel) := by
  by_cases touch : left.FirstTouch env va
  · rcases alike touch with listed | recycles
    · exact Related.pageFaultHandler fuel left right related absent fun _ => listed
    · exact related.pageFaultHandler_of_recycles absent recycles fuel
  · -- the frame is filled from the page file, or none is taken
    have vacuous : Related env (fun page => page = va ∧ left.Takes env va) left right := by
      refine { related with taken := ?_ }
      rintro page ⟨rfl, takes⟩ unstored
      exact absurd ⟨absent, unstored, located, takes⟩ touch
    exact Related.pageFaultHandler fuel left right vacuous absent fun takes => ⟨rfl, takes⟩

/-- The fault handler. -/
theorem faultHandler (related : Related env faulted left right)
    (alike : left.FirstTouch env va → faulted va ∨ left.Recycles env) (fuel : Nat) :
    Lockstep (Related env fun _ => False) Stop.Same (left.faultHandler env va fuel)
      (right.faultHandler env va fuel) := by
  have guard : right.RepeatedThrice env va ↔ left.RepeatedThrice env va := by
    rw [related.same]
    exact Iff.rfl
  have table : right.memory.getPageTable (right.directory env) va =
      left.memory.getPageTable (left.directory env) va := by
    rw [related.same]
    rfl
  by_cases repeated : left.RepeatedThrice env va
  · rw [faultHandler_of_repeated repeated, faultHandler_of_repeated (guard.mpr repeated)]
    exact .error trivial
  · rw [faultHandler_eq repeated, faultHandler_eq (mt guard.mp repeated), table]
    have noted := related.notedFault va
    split
    · exact .error trivial
    · cases held : left.memory.getPageTable (left.directory env) va with
      | none =>
          exact .ok ((noted.weaken fun _ listed => listed.elim).createPageTable va)
      | some number =>
          have located : left.memory.slot (left.directory env) va = some (number, ptx va) := by
            rw [Memory.slot, held, Option.map_some]
          have buffering : (right.notedFault env va).enableBuffering =
              (left.notedFault env va).enableBuffering := by
            rw [related.same]
            rfl
          dsimp only
          unfold checkedFault
          dsimp only
          rw [noted.pagePermissions, buffering]
          split
          · exact .error trivial
          split
          · exact .error trivial
          split
          · exact .error trivial
          split
          · exact .error trivial
          split
          · exact .error trivial
          · rename_i absent _
            have perms : (left.notedFault env va).pagePermissions env va =
                (left.memory.tables (number, ptx va)).perm := pagePermissions_eq located
            rw [perms, Bool.not_eq_true, ← PageTableEntry.present] at absent
            refine noted.handleFault ((pagePresent_eq located).trans absent) ?_
              (fun touch => ?_) fuel
            · change (left.memory.slot (left.directory env) va).isSome = true
              rw [located, Option.isSome_some]
            · exact (alike ⟨touch.absent, touch.unstored, touch.located,
                touch.takes⟩).imp_right
                fun recycles => ⟨recycles.replaces, recycles.full, recycles.hand, recycles.own⟩

/-- The dispatch of a page fault. -/
theorem trapDispatch (related : Related env faulted left right)
    (alike : left.FirstTouch env va → faulted va ∨ left.Recycles env) (fuel : Nat) :
    Lockstep (Related env fun _ => False) Stop.Same (left.trapDispatch env va fuel)
      (right.trapDispatch env va fuel) := by
  unfold Kernel.trapDispatch Kernel.stampLru
  rw [related.algorithm]
  by_cases lru : left.pageRepAlgoType = .lruTimeApprox
  · rw [if_pos lru, if_pos lru]
    apply ((related.updateWsTimeStamps env).and_left (left.updateWsTimeStamps_ticked env)).bind
    rintro stamped stamped' ⟨related, ticked⟩
    refine related.faultHandler (fun touch => ?_) fuel
    -- LRU takes a frame for every absent page
    have takes : left.Takes env va := by
      rw [Takes, if_neg (by rw [lru]; decide)]
      refine .inr ⟨by rw [lru]; trivial, fun skips => ?_⟩
      rcases skips.1 with same | same <;> rw [lru] at same <;> cases same
    have touch' : left.FirstTouch env va := by
      refine ⟨?_, ?_, ?_, takes⟩
      · rw [← ticked.pagePresent]
        exact touch.absent
      · rw [← ticked.envs]
        exact touch.unstored
      · rw [← ticked.slot_eq]
        exact touch.located
    exact (alike touch').imp_right ticked.recycles
  · rw [if_neg lru, if_neg lru]
    exact related.faultHandler alike fuel

/-- A write of the environment to one of its pages. -/
theorem writeByte (related : Related env faulted left right) (va index : Nat) (value : UInt8) :
    Related env faulted (left.writeByte (left.pageEntry env va).frame index value)
      (right.writeByte (right.pageEntry env va).frame index value) := by
  have own := related.frames va
  obtain ⟨bytes, frames, rfl⟩ := related.exists_contents
  have bytesEq : ∀ frame, bytes frame = left.memory.bytes frame →
      Function.update bytes (left.pageEntry env va).frame
          (Function.update (bytes (left.pageEntry env va).frame) index value) frame =
        Function.update left.memory.bytes (left.pageEntry env va).frame
          (Function.update (left.memory.bytes (left.pageEntry env va).frame) index value)
              frame := by
    intro frame equal
    by_cases here : frame = (left.pageEntry env va).frame
    · subst here
      rw [Function.update_self, Function.update_self]
      exact congrArg (Function.update · index value) own
    · rw [Function.update_of_ne here, Function.update_of_ne here]
      exact equal
  refine ⟨rfl, bytesEq 0 related.reserved, fun page => bytesEq _ (related.frames page),
    related.stored, fun page listed unstored frame head => ?_⟩
  exact bytesEq frame (related.taken page listed unstored frame head)

/-- What others do. -/
theorem elsewhere {left' right' : Kernel} (related : Related env faulted left right)
    (same : right' = left'.withContents right'.memory.bytes right'.disk.frames)
    (apart : Elsewhere env left left') (apart' : Elsewhere env right right') :
    Related env (fun _ => False) left' right' := by
  refine ⟨same, ?_, fun page => ?_, fun page stored => ?_, fun _ listed => listed.elim⟩
  · rw [apart.bytes 0 (.inl rfl), apart'.bytes 0 (.inl rfl)]
    exact related.reserved
  · have entry : (right.pageEntry env page).frame = (left.pageEntry env page).frame := by
      rw [related.pageEntry]
    rw [apart.entries, apart.bytes _ (.inr ⟨page, rfl⟩),
      apart'.bytes _ (.inr ⟨page, entry⟩)]
    exact related.frames page
  · have kept := apart'.stored page
    rw [apart.envs] at stored ⊢
    rw [related.envs] at kept
    rw [apart.stored page stored, kept stored]
    exact related.stored page stored

theorem setAlgorithm (related : Related env faulted left right) (algorithm : PageRepAlgoType) :
    Related env faulted { left with pageRepAlgoType := algorithm }
      { right with pageRepAlgoType := algorithm } := by
  obtain ⟨bytes, frames, rfl⟩ := related.exists_contents
  exact related.congr rfl rfl rfl (fun _ => rfl) rfl rfl

/-- An invalidation. -/
theorem envPageWsInvalidate (related : Related env faulted left right) (va : Nat) :
    Related env faulted (left.envPageWsInvalidate env va) (right.envPageWsInvalidate env va) := by
  obtain ⟨bytes, frames, rfl⟩ := related.exists_contents
  cases found : (left.envs env).pageWsList.find? fun wse =>
      roundDown (left.elementVa wse) pageSize = roundDown va pageSize with
  | none =>
      have found' : ((left.withContents bytes frames).envs env).pageWsList.find? (fun wse =>
          roundDown ((left.withContents bytes frames).elementVa wse) pageSize =
            roundDown va pageSize) = none := found
      simp only [Kernel.envPageWsInvalidate, found, found']
      exact related
  | some wse =>
      have found' : ((left.withContents bytes frames).envs env).pageWsList.find? (fun wse =>
          roundDown ((left.withContents bytes frames).elementVa wse) pageSize =
            roundDown va pageSize) = some wse := found
      simp only [Kernel.envPageWsInvalidate, found, found']
      exact (related.unmapPage (left.elementVa wse) (.inl fun _ listed => listed)).setEnv (by rfl)
        (by rfl)

end Related

/-- A move that both runs make: the environment's own fault, which is subject to a condition, its
writes, the bits of its entries, its invalidations, clock interrupts, switches of the algorithm, or
anything that others do. Only the bytes that others write may differ. -/
inductive PairMove (env : Nat) (condition : Kernel → Kernel → Nat → Prop)
    (before : Kernel × Kernel) : Kernel × Kernel → Prop
  | fault {left right : Kernel} (va fuel : Nat) (met : condition before.1 before.2 va)
      (returned : before.1.trapDispatch env va fuel = .ok left)
      (returned' : before.2.trapDispatch env va fuel = .ok right) :
      PairMove env condition before (left, right)
  | write (va : Nat) (value : UInt8) :
      PairMove env condition before
        (before.1.writeByte (before.1.pageEntry env va).frame (pgoff va) value,
          before.2.writeByte (before.2.pageEntry env va).frame (pgoff va) value)
  | permissions {left right : Kernel} (other va : Nat) (set clear : Perm)
      (returned : before.1.setPagePermissions other va set clear = .ok left)
      (returned' : before.2.setPagePermissions other va set clear = .ok right) :
      PairMove env condition before (left, right)
  | invalidate (va : Nat) :
      PairMove env condition before
        (before.1.envPageWsInvalidate env va, before.2.envPageWsInvalidate env va)
  | tick {left right : Kernel} (other : Nat)
      (returned : before.1.updateWsTimeStamps other = .ok left)
      (returned' : before.2.updateWsTimeStamps other = .ok right) :
      PairMove env condition before (left, right)
  | setPageReplacmentAlgorithm (algorithm : PageRepAlgoType) :
      PairMove env condition before
        ({ before.1 with pageRepAlgoType := algorithm },
          { before.2 with pageRepAlgoType := algorithm })
  | others {left right : Kernel}
      (same : right = left.withContents right.memory.bytes right.disk.frames)
      (apart : Elsewhere env before.1 left) (apart' : Elsewhere env before.2 right) :
      PairMove env condition before (left, right)

/-- The runs show the environment the same pages, also after its next fault. -/
def NoLeak (env : Nat) (condition : Kernel → Kernel → Nat → Prop) (left right : Kernel) :
    Prop :=
  SameView env left right ∧ ∀ va fuel, condition left right va →
    Lockstep (SameView env) Stop.Same (left.trapDispatch env va fuel)
      (right.trapDispatch env va fuel)

theorem Related.fault (related : Related env (fun _ => False) left right)
    (alike : TakesAlike env left right va) (fuel : Nat) :
    Lockstep (Related env fun _ => False) Stop.Same (left.trapDispatch env va fuel)
      (right.trapDispatch env va fuel) := by
  by_cases first : FirstSame left right
  · have taken : Related env (fun _ => True) left right :=
      { related with taken := fun _ _ _ => first }
    exact taken.trapDispatch (fun _ => .inl trivial) fuel
  · exact related.trapDispatch (fun touch => .inr ((alike touch).resolve_left first)) fuel

/-- A move keeps the kernels related. -/
theorem PairMove.related {start finish : Kernel × Kernel}
    (related : Related env (fun _ => False) start.1 start.2)
    (move : PairMove env (TakesAlike env) start finish) :
    Related env (fun _ => False) finish.1 finish.2 := by
  cases move with
  | fault va fuel met returned returned' => exact (related.fault met fuel).of_ok returned returned'
  | write va value => exact related.writeByte va _ value
  | permissions other va set clear returned returned' =>
      exact (related.setPagePermissions other va set clear).of_ok returned returned'
  | invalidate va => exact related.envPageWsInvalidate va
  | tick other returned returned' =>
      exact (related.updateWsTimeStamps other).of_ok returned returned'
  | setPageReplacmentAlgorithm algorithm =>
      exact related.setAlgorithm algorithm
  | others same apart apart' => exact related.elsewhere same apart apart'

/-- In every two runs from kernels that differ in foreign bytes only, whose first touches take
frames with the same bytes or frames of the environment's own, the environment sees the same
pages. -/
theorem noLeak_of_run (start start' left right : Kernel) (env : Nat)
    (related : Related env (fun _ => False) start start')
    (run : Relation.ReflTransGen (PairMove env (TakesAlike env)) (start, start') (left, right)) :
    NoLeak env (TakesAlike env) left right := by
  have reached : ∀ state : Kernel × Kernel,
      Relation.ReflTransGen (PairMove env (TakesAlike env)) (start, start') state →
        Related env (fun _ => False) state.1 state.2 := by
    intro state run
    induction run with
    | refl => exact related
    | tail _ move ih => exact move.related ih
  have related := reached _ run
  exact ⟨related.sameView, fun va fuel alike =>
    (related.fault alike fuel).mono fun _ _ related => related.sameView⟩

/-- The first touch of a stack page, when another environment wrote to the second free frame in one
of the runs. -/
theorem noLeak_of_run_blank : ∃ left right,
    (blank .clock 1).trapDispatch 0 0xEEBFD000 1 = .ok left ∧
      ((blank .clock 1).writeByte 257 0 7).trapDispatch 0 0xEEBFD000 1 = .ok right ∧
      NoLeak 0 (TakesAlike 0) left right := by
  obtain ⟨left, returned, -⟩ := Returns.exists (show Returns
    ((blank .clock 1).trapDispatch 0 0xEEBFD000 1) (fun _ => true) = true by decide +kernel)
  obtain ⟨right, returned', -⟩ := Returns.exists (show Returns
    (((blank .clock 1).writeByte 257 0 7).trapDispatch 0 0xEEBFD000 1) (fun _ => true) = true by
      decide +kernel)
  have bytes : ∀ frame, frame ≠ 257 →
    ((blank .clock 1).writeByte 257 0 7).memory.bytes frame =
      (blank .clock 1).memory.bytes frame := fun frame different =>
        Function.update_of_ne different ..
  have related : Related 0 (fun _ => False) (blank .clock 1)
      ((blank .clock 1).writeByte 257 0 7) := by
    refine ⟨rfl, bytes 0 (by decide), fun va => ?_, fun va stored => absurd rfl stored,
      fun _ listed => listed.elim⟩
    have empty : ((blank .clock 1).pageEntry 0 va).frame = 0 := by
      unfold pageEntry Memory.entry
      cases (blank .clock 1).memory.slot ((blank .clock 1).directory 0) va <;> rfl
    rw [empty]
    exact bytes 0 (by decide)
  have first : FirstSame (blank .clock 1) ((blank .clock 1).writeByte 257 0 7) := by
    intro frame head
    obtain rfl : 258 = frame := Option.some.inj head
    exact bytes 258 (by decide)
  exact ⟨left, right, returned, returned', noLeak_of_run _ _ left right 0 related
    (.single (.fault 0xEEBFD000 1 (fun _ => .inl first) returned returned'))⟩

/-- Another environment writes a byte to a stack page of its own and gives the page up. -/
def afterForeignWrite (value : UInt8) : Except Stop Kernel := do
  let kernel ← (blank .clock 1).userWrite 1 0xEEBFD000 value 2 3
  return kernel.envPageWsInvalidate 1 0xEEBFD000

/-- The first read of a stack page returns the byte that another environment wrote to its frame. -/
theorem firstTouch_leaks : ¬ ∀ value value' kernel kernel',
    afterForeignWrite value = .ok kernel → afterForeignWrite value' = .ok kernel' →
      Lockstep (fun (byte, _) (byte', _) => byte = byte') Stop.Same
        (kernel.userRead 0 0xEEBFD000 2 3) (kernel'.userRead 0 0xEEBFD000 2 3) := by
  intro same
  obtain ⟨kernel, wrote, observed⟩ := Returns.exists (show Returns (afterForeignWrite 0)
    (fun kernel => Returns (kernel.userRead 0 0xEEBFD000 2 3) fun (byte, _) => byte == 0) = true by
      decide +kernel)
  obtain ⟨kernel', wrote', observed'⟩ := Returns.exists (show Returns (afterForeignWrite 7)
    (fun kernel => Returns (kernel.userRead 0 0xEEBFD000 2 3) fun (byte, _) => byte == 7) = true by
      decide +kernel)
  obtain ⟨⟨byte, after⟩, read, zero⟩ := Returns.exists observed
  obtain ⟨⟨byte', after'⟩, read', seven⟩ := Returns.exists observed'
  have equal : byte = byte' := (same 0 7 kernel kernel' wrote wrote').of_ok read read'
  rw [← equal, eq_of_beq zero] at seven
  cases seven

end Kernel

end FosKernel
