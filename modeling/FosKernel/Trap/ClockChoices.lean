import FosKernel.Trap.ClockWalk

/-!
# The choices of the clocks

CLOCK chooses the first element that is not used, from the hand on, or the element
at the hand when all are used. Modified CLOCK chooses the first element of the
lowest class of used and modified bits, in its second pair of tries at the latest.
-/

namespace FosKernel

open ClockRing

namespace Kernel

variable {kernel after : Kernel} {env victim fuel count : Nat}
  {ring passed rest cleared : List Nat}

theorem clockVictim_here (isRing : kernel.RingAt env (victim :: rest))
    (resident : Resident kernel env) (free : kernel.used env victim = false) :
    kernel.clockVictim env (fuel + 1) = .ok (victim, kernel) := by
  have pointed := (isRing.advance resident.nodup).1
  have mark : Perm.has (kernel.pagePermissions env (kernel.elementVa victim)) permUsed = false :=
    free
  rw [clockVictim]
  simp only [pointed, mark]
  rfl

theorem tryUnused_here (isRing : kernel.RingAt env (victim :: rest))
    (resident : Resident kernel env) (free : kernel.used env victim = false) :
    kernel.tryUnused env (count + 1) = .ok (some victim, kernel) := by
  have pointed := (isRing.advance resident.nodup).1
  have mark : Perm.has (kernel.pagePermissions env (kernel.elementVa victim)) permUsed = false :=
    free
  rw [tryUnused]
  simp only [pointed, mark]
  rfl

theorem tryUnmodified_here (isRing : kernel.RingAt env (victim :: rest))
    (resident : Resident kernel env) (unused : kernel.used env victim = false)
    (clean : kernel.modified env victim = false) :
    kernel.tryUnmodified env (count + 1) = .ok (some victim, kernel) := by
  have pointed := (isRing.advance resident.nodup).1
  have unused' : Perm.has (kernel.pagePermissions env (kernel.elementVa victim)) permUsed =
    false := unused
  have clean' : Perm.has (kernel.pagePermissions env (kernel.elementVa victim)) permModified =
    false := clean
  rw [tryUnmodified]
  simp only [pointed, unused', clean']
  rfl

/-- The search of CLOCK ends, makes the clock's choice and clears the bits of the clock. -/
theorem clockVictim_chooses (resident : Resident kernel env) (isRing : kernel.RingAt env ring)
    (choice : ClockChoice (kernel.used env) ring victim cleared rest) (fuel : Nat) :
    ∃ after, kernel.clockVictim env (ring.length + (fuel + 1)) = .ok (victim, after) ∧
      Cleared env kernel after cleared ∧ after.RingAt env (victim :: rest) := by
  cases choice with
  | @unused _ rest _ split skipped free =>
      subst split
      have length : (cleared ++ victim :: rest).length + (fuel + 1) =
          cleared.length + (rest.length + 1 + fuel + 1) := by
        rw [List.length_append, List.length_cons]
        omega
      obtain ⟨after, same, kept, arrived⟩ :=
        clockVictim_walk env cleared kernel (victim :: rest) (rest.length + 1 + fuel + 1) resident
          isRing skipped
      have outside : victim ∉ cleared := fun inside =>
        (List.nodup_append.mp (isRing.nodup resident)).2.2 victim inside victim
          (List.mem_cons_self ..) rfl
      have free' : after.used env victim = false := by
        rw [(kept.bits resident
          (fun other inside => isRing.mem_iff.mp (List.mem_append_left _ inside))
          (isRing.mem_iff.mp (by simp))).1, if_neg outside, free]
      refine ⟨after, ?_, kept, arrived⟩
      rw [length, same]
      exact clockVictim_here arrived (resident.of_searched kept.search) free'
  | wrapped split all =>
      obtain ⟨after, same, kept, arrived⟩ :=
        clockVictim_walk env ring kernel [] (fuel + 1) resident
        (by rwa [List.append_nil]) all
      rw [List.nil_append, split] at arrived
      have member : victim ∈ ring := by simp [split]
      have free' : after.used env victim = false := by
        rw [(kept.bits resident (fun other inside => isRing.mem_iff.mp inside)
          (isRing.mem_iff.mp member)).1, if_pos member]
      refine ⟨after, ?_, kept, arrived⟩
      rw [same]
      exact clockVictim_here arrived (resident.of_searched kept.search) free'

/-- The class of an element's page: not used and not modified first, used and modified last. -/
def pageClass (kernel : Kernel) (env element : Nat) : Nat :=
  2 * (kernel.used env element).toNat + (kernel.modified env element).toNat

section Classes

variable (kernel : Kernel) (env element : Nat)

theorem pageClass_le : kernel.pageClass env element ≤ 3 := by
  unfold pageClass
  cases kernel.used env element <;> cases kernel.modified env element <;> decide

variable {kernel env element}

/-- Which bits are set in a class from some number on. -/
theorem marked_of_pageClass (class_ : 1 ≤ kernel.pageClass env element) :
    kernel.used env element = true ∨ kernel.modified env element = true := by
  unfold pageClass at class_
  cases used : kernel.used env element <;> cases dirty : kernel.modified env element <;>
    simp_all

theorem used_of_pageClass (class_ : 2 ≤ kernel.pageClass env element) :
    kernel.used env element = true := by
  unfold pageClass at class_
  cases used : kernel.used env element <;> cases dirty : kernel.modified env element <;>
    simp_all

theorem modified_of_pageClass (class_ : 3 ≤ kernel.pageClass env element) :
    kernel.modified env element = true := by
  unfold pageClass at class_
  cases used : kernel.used env element <;> cases dirty : kernel.modified env element <;>
    simp_all

end Classes

/-- The elements whose used bits Modified CLOCK clears: those that try 2 passes. -/
def clearedBy (kernel : Kernel) (env victim : Nat) (ring passed : List Nat) : List Nat :=
  if kernel.used env victim then ring else if kernel.modified env victim then passed else []

section Rounds

variable {size : Nat} {first second : Kernel}

theorem modifiedClockVictim_of_unmodified (size : (kernel.envs env).pageWsMaxSize = count)
    (found : kernel.tryUnmodified env count = .ok (some victim, after)) :
    kernel.modifiedClockVictim env (fuel + 1) = .ok (victim, after) := by
  rw [modifiedClockVictim, size, found]
  rfl

theorem modifiedClockVictim_of_unused (size : (kernel.envs env).pageWsMaxSize = count)
    (missed : kernel.tryUnmodified env count = .ok (none, first))
    (found : first.tryUnused env count = .ok (some victim, after)) :
    kernel.modifiedClockVictim env (fuel + 1) = .ok (victim, after) := by
  rw [modifiedClockVictim, size, missed]
  change (first.tryUnused env count >>= _) = _
  rw [found]
  rfl

theorem modifiedClockVictim_of_neither (size : (kernel.envs env).pageWsMaxSize = count)
    (missed : kernel.tryUnmodified env count = .ok (none, first))
    (missed' : first.tryUnused env count = .ok (none, second)) :
    kernel.modifiedClockVictim env (fuel + 1) = second.modifiedClockVictim env fuel := by
  rw [modifiedClockVictim, size, missed]
  change (first.tryUnused env count >>= _) = _
  rw [missed']
  rfl

/-- Try 1 goes once around when every page is used or modified. -/
theorem tryUnmodified_around (resident : Resident kernel env) (isRing : kernel.RingAt env ring)
    (marked : ∀ element ∈ ring, kernel.used env element = true ∨
      kernel.modified env element = true) :
    ∃ after, kernel.tryUnmodified env ring.length = .ok (none, after) ∧
      Cleared env kernel after [] ∧ after.RingAt env ring := by
  obtain ⟨after, same, kept, arrived⟩ :=
    tryUnmodified_walk env ring kernel [] 0 resident (by rwa [List.append_nil]) marked
  exact ⟨after, same, kept, arrived⟩

/-- Try 1 finds the first page that is neither used nor modified. -/
theorem tryUnmodified_finds (resident : Resident kernel env)
    (isRing : kernel.RingAt env (passed ++ victim :: rest))
    (marked : ∀ element ∈ passed, kernel.used env element = true ∨
      kernel.modified env element = true)
    (unused : kernel.used env victim = false) (clean : kernel.modified env victim = false) :
    ∃ after, kernel.tryUnmodified env (passed ++ victim :: rest).length =
      .ok (some victim, after) ∧
      Cleared env kernel after [] ∧ after.RingAt env (victim :: (rest ++ passed)) := by
  obtain ⟨after, same, kept, arrived⟩ := tryUnmodified_walk env passed kernel (victim :: rest)
    (rest.length + 1) resident isRing marked
  obtain ⟨used', modified'⟩ := kept.bits resident nofun
    (isRing.mem_iff.mp (show victim ∈ passed ++ victim :: rest by simp))
  rw [if_neg List.not_mem_nil] at used'
  refine ⟨after, ?_, kept, arrived⟩
  rw [List.length_append, List.length_cons, same]
  exact tryUnmodified_here arrived (resident.of_searched kept.search) (used'.trans unused)
    (modified'.trans clean)

/-- Try 2 finds the first page that is not used. -/
theorem tryUnused_finds (resident : Resident kernel env)
    (isRing : kernel.RingAt env (passed ++ victim :: rest))
    (used : ∀ element ∈ passed, kernel.used env element = true)
    (free : kernel.used env victim = false) :
    ∃ after, kernel.tryUnused env (passed ++ victim :: rest).length = .ok (some victim, after) ∧
      Cleared env kernel after passed ∧ after.RingAt env (victim :: (rest ++ passed)) := by
  obtain ⟨after, same, kept, arrived⟩ := tryUnused_walk env passed kernel (victim :: rest)
    (rest.length + 1) resident isRing used
  have outside : victim ∉ passed := fun inside =>
    (List.nodup_append.mp (isRing.nodup resident)).2.2 victim inside victim
      (List.mem_cons_self ..) rfl
  have free' := (kept.bits resident
    (fun other inside => isRing.mem_iff.mp (List.mem_append_left _ inside))
    (isRing.mem_iff.mp (show victim ∈ passed ++ victim :: rest by simp))).1
  rw [if_neg outside, free] at free'
  refine ⟨after, ?_, kept, arrived⟩
  rw [List.length_append, List.length_cons, same]
  exact tryUnused_here arrived (resident.of_searched kept.search) free'

/-- When every page is used, the first pair of tries clears all used bits. -/
theorem modifiedClockVictim_around (resident : Resident kernel env)
    (isRing : kernel.RingAt env ring) (full : (kernel.envs env).pageWsMaxSize = ring.length)
    (used : ∀ element ∈ ring, kernel.used env element = true) :
    ∃ after, kernel.modifiedClockVictim env (fuel + 1) = after.modifiedClockVictim env fuel ∧
      Cleared env kernel after ring ∧ after.RingAt env ring := by
  obtain ⟨first, missed, kept, arrived⟩ :=
    tryUnmodified_around resident isRing fun element inside => .inl (used element inside)
  have used' : ∀ element ∈ ring, first.used env element = true := by
    intro element inside
    rw [(kept.bits resident nofun (isRing.mem_iff.mp inside)).1, if_neg List.not_mem_nil]
    exact used element inside
  obtain ⟨after, missed', kept', arrived'⟩ := tryUnused_walk env ring first [] 0
    (resident.of_searched kept.search) (by rwa [List.append_nil]) used'
  exact ⟨after, modifiedClockVictim_of_neither full missed missed', kept.trans kept', arrived'⟩

end Rounds

/-- Modified CLOCK chooses the first element of the lowest class, after at most four tries. -/
theorem modifiedClockVictim_chooses (resident : Resident kernel env)
    (isRing : kernel.RingAt env ring) (full : (kernel.envs env).pageWsMaxSize = ring.length)
    (choice : FirstLeast (kernel.pageClass env) ring passed victim rest) (fuel : Nat) :
    ∃ after, kernel.modifiedClockVictim env (fuel + 2) = .ok (victim, after) ∧
      Cleared env kernel after (kernel.clearedBy env victim ring passed) ∧
      after.RingAt env (victim :: (rest ++ passed)) := by
  have lowest := choice.le
  obtain ⟨split, before, _⟩ := choice
  cases used : kernel.used env victim with
  | false =>
      cases dirty : kernel.modified env victim with
      | false =>
          have marked : ∀ element ∈ passed, kernel.used env element = true ∨
              kernel.modified env element = true :=
            fun element inside => marked_of_pageClass (Nat.zero_lt_of_lt (before element inside))
          rw [split] at isRing full
          obtain ⟨after, found, kept, arrived⟩ :=
            tryUnmodified_finds resident isRing marked used dirty
          refine ⟨after, modifiedClockVictim_of_unmodified full found, ?_, arrived⟩
          rw [clearedBy, used, dirty]
          exact kept
      | true =>
          have least : kernel.pageClass env victim = 1 := by rw [pageClass, used, dirty]; rfl
          rw [least] at lowest before
          obtain ⟨first, missed, kept, arrived⟩ := tryUnmodified_around resident isRing
            fun element inside => marked_of_pageClass (lowest element inside)
          have same : ∀ element ∈ ring, first.used env element = kernel.used env element := by
            intro element inside
            rw [(kept.bits resident nofun (isRing.mem_iff.mp inside)).1, if_neg List.not_mem_nil]
          rw [split] at arrived full missed same
          obtain ⟨after, found, kept', arrived'⟩ :=
            tryUnused_finds (resident.of_searched kept.search) arrived
              (fun element inside => (same element (List.mem_append_left _ inside)).trans
                (used_of_pageClass (before element inside)))
              ((same victim (by simp)).trans used)
          refine ⟨after, modifiedClockVictim_of_unused full missed found, ?_, arrived'⟩
          rw [clearedBy, used, dirty]
          exact kept.trans kept'
  | true =>
      have least : 2 ≤ kernel.pageClass env victim := by
        rw [pageClass, used]
        exact Nat.le_add_right 2 _
      obtain ⟨second, same, kept, arrived⟩ := modifiedClockVictim_around resident isRing full
        fun element inside => used_of_pageClass (Nat.le_trans least (lowest element inside))
      have resident' := resident.of_searched kept.search
      have full' : (second.envs env).pageWsMaxSize = ring.length := by
        rw [kept.search.pageWsMaxSize, full]
      have bits : ∀ element ∈ ring, second.used env element = false ∧
          second.modified env element = kernel.modified env element := by
        intro element inside
        obtain ⟨unused, modified⟩ := kept.bits resident
          (fun other member => isRing.mem_iff.mp member) (isRing.mem_iff.mp inside)
        rw [if_pos inside] at unused
        exact ⟨unused, modified⟩
      rw [same, clearedBy, used, if_pos rfl]
      cases dirty : kernel.modified env victim with
      | false =>
          have marked : ∀ element ∈ passed, second.used env element = true ∨
              second.modified env element = true := by
            intro element inside
            rw [(bits element (by simp [split, inside])).2]
            exact .inr (modified_of_pageClass (Nat.lt_of_le_of_lt least (before element inside)))
          have here := bits victim (by simp [split])
          rw [split] at arrived full'
          obtain ⟨after, found, kept', arrived'⟩ :=
            tryUnmodified_finds resident' arrived marked here.1 (here.2.trans dirty)
          refine ⟨after, modifiedClockVictim_of_unmodified full' found, ?_, arrived'⟩
          have all := kept.trans kept'
          rwa [List.append_nil] at all
      | true =>
          have greatest : kernel.pageClass env victim = 3 := by rw [pageClass, used, dirty]; rfl
          have all : ∀ element ∈ ring, kernel.modified env element = true :=
            fun element inside => modified_of_pageClass (greatest ▸ lowest element inside)
          obtain rfl : passed = [] := by
            refine List.eq_nil_iff_forall_not_mem.mpr fun element inside => ?_
            have higher := before element inside
            have bound := kernel.pageClass_le env element
            omega
          obtain ⟨first, missed, kept', arrived'⟩ := tryUnmodified_around resident' arrived
            fun element inside => .inr ((bits element inside).2.trans (all element inside))
          have free : first.used env victim = false := by
            have inside : victim ∈ ring := by simp [split]
            rw [(kept'.bits resident' nofun (arrived.mem_iff.mp inside)).1,
              if_neg List.not_mem_nil, (bits victim inside).1]
          rw [split] at arrived' full' missed
          obtain ⟨after, found, kept'', arrived''⟩ :=
            tryUnused_finds (resident'.of_searched kept'.search) arrived' nofun free
          refine ⟨after, modifiedClockVictim_of_unused full' missed found, ?_, arrived''⟩
          have all := (kept.trans kept').trans kept''
          rwa [List.append_nil, List.append_nil] at all

end Kernel

end FosKernel
