import FosKernel.Trap.PageFaults

/-!
# Rejected faults

A rejected fault frees the frame that it took twice: `unmap_frame` frees it with its
last reference, and `free_frame` links it before itself. The free frame list is
no list after any rejection.
-/

namespace FosKernel

/-- What a rejected fault should leave of the frame that it took: one place on a well-formed free
frame list of the old length, and no mapping. -/
structure FrameReturned (before after : Memory) (frame : Nat) : Prop where
  listed : ∃ nodes, after.freeFrameList.Represents nodes ∧
    nodes.length = before.freeFrameList.size ∧ frame ∈ nodes
  unmapped : ∀ slot, (after.tables slot).present = true → (after.tables slot).frame ≠ frame

/-- The call ended the environment. -/
def envExited {α : Type} : Except Stop α → Bool
  | .error (.envExit _) => true
  | _ => false

theorem exists_of_envExited {α : Type} {call : Except Stop α} (ended : envExited call = true) :
    ∃ stopped, call = .error (.envExit stopped) := by
  unfold envExited at ended
  split at ended
  · exact ⟨_, rfl⟩
  · cases ended

namespace Kernel

variable {kernel stopped : Kernel} {env va fuel : Nat}

/-- Under every algorithm a fault that ends the environment was rejected. -/
theorem pageFaultHandler_rejects (kernel : Kernel) (env va fuel : Nat)
    (absent : kernel.pagePresent env va = false) :
    Ends (kernel.pageFaultHandler env va fuel) (fun _ => True) kernel.RejectedBy := by
  by_cases replaces : kernel.pageRepAlgoType.Replaces
  · exact (pageFaultHandler_ends env va fuel kernel replaces absent).mono (fun _ _ => trivial)
      fun _ rejected => rejected
  · cases fuel with
    | zero => exact .error (RejectedBy.of_unrejected trivial)
    | succ fuel =>
        unfold pageFaultHandler
        dsimp only
        split
        · exact (optimalReplacement_ends kernel env va).mono (fun _ _ => trivial)
            fun _ unrejected => RejectedBy.of_unrejected unrejected
        · split
          · exact (placement_ends kernel absent).mono (fun _ _ => trivial)
              fun _ rejected => rejected
          · cases algorithm : kernel.pageRepAlgoType with
            | clock => exact absurd (algorithm ▸ trivial) replaces
            | lruTimeApprox => exact absurd (algorithm ▸ trivial) replaces
            | modifiedClock => exact absurd (algorithm ▸ trivial) replaces
            | _ => exact .ok trivial

/-- After a rejected fault the free frame list is not well formed. -/
theorem Rejected.not_represents (rejected : Rejected kernel stopped) (nodes : List Nat) :
    ¬ stopped.memory.freeFrameList.Represents nodes := by
  obtain ⟨frame, first, loop⟩ := rejected.looped
  exact IntrusiveList.not_represents_of_loop first loop nodes

/-- No rejected fault returns its frame. -/
theorem not_frameReturned_of_envExit (kernel stopped : Kernel) (env va fuel : Nat)
    (absent : kernel.pagePresent env va = false)
    (ended : kernel.pageFaultHandler env va fuel = .error (.envExit stopped)) (before : Memory)
    (frame : Nat) : ¬ FrameReturned before stopped.memory frame := by
  intro returned
  obtain ⟨nodes, represents, -⟩ := returned.listed
  have rejected := (pageFaultHandler_rejects kernel env va fuel absent).of_error ended stopped rfl
  exact rejected.not_represents nodes represents

/-- An access outside heap and stack to a page that is not in the page file is rejected. -/
theorem blank_rejects : ∃ stopped,
    (blank .clock 1).pageFaultHandler 0 0x800000 1 = .error (.envExit stopped) := by
  exact exists_of_envExited (by decide +kernel)

theorem not_frameReturned_of_envExit_blank : ∃ stopped,
    (blank .clock 1).pageFaultHandler 0 0x800000 1 = .error (.envExit stopped) ∧
      ∀ before frame, ¬ FrameReturned before stopped.memory frame := by
  obtain ⟨stopped, ended⟩ := blank_rejects
  exact ⟨stopped, ended, not_frameReturned_of_envExit (blank .clock 1) stopped 0 0x800000 1
    (by decide +kernel) ended⟩

/-- The frame of the rejected page is 258, the first free one; it does not come back. -/
theorem rejected_frame_lost : ∃ stopped,
    (blank .clock 1).pageFaultHandler 0 0x800000 1 = .error (.envExit stopped) ∧
      (blank .clock 1).memory.freeFrameList.first = some 258 ∧
      ¬ FrameReturned (blank .clock 1).memory stopped.memory 258 := by
  obtain ⟨stopped, ended⟩ := blank_rejects
  refine ⟨stopped, ended, by decide +kernel, fun returned => ?_⟩
  obtain ⟨nodes, represents, -⟩ := returned.listed
  have rejected := (pageFaultHandler_rejects _ 0 0x800000 1 (by decide +kernel)).of_error ended
    stopped rfl
  exact rejected.not_represents nodes represents

end Kernel

end FosKernel
