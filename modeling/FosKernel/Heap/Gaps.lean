import FosKernel.Heap.CustomFit

/-!
# Gaps of the kernel heap

The maximal gaps between the allocations of a kernel heap, and which of them
`find_customfit` chooses: the first one of exactly the requested length, else
the first of the largest ones, if that is large enough.
-/

namespace FosKernel

namespace KHeap

variable {β : Type}

/-- The number of pages that a recorded size takes up. -/
def allocatedPages (heap : KHeap β) (index : Nat) : Nat :=
  (heap.kallocationSizes index + (pageSize - 1)) / pageSize

/-- The recorded sizes describe disjoint page runs between the start of the page allocator
and its break. -/
structure RunsRecorded (heap : KHeap β) (top : Nat) : Prop where
  break_eq : heap.kheapPageAllocBreak = heapVa top
  firstPage_le : firstPage ≤ top
  top_le : top ≤ kheapPagesCount
  packed : Runs.Packed heap.allocatedPages firstPage top

/-- A maximal free gap of the page allocator. -/
def Gap (heap : KHeap β) (top : Nat) : Nat → Nat → Prop :=
  Runs.Gap heap.allocatedPages firstPage top

/-- The choice among gaps: the lowest exact fit; else the lowest of the largest gaps, if
it is long enough; else 0. -/
structure CustomFit (gap : Nat → Nat → Prop) (numPages va : Nat) : Prop where
  exact : (∃ start, gap start numPages) →
    ∃ start, va = heapVa start ∧ gap start numPages ∧
      ∀ other, gap other numPages → start ≤ other
  worst : (¬ ∃ start, gap start numPages) →
    (∃ start count, gap start count ∧ numPages ≤ count) →
    ∃ start count, va = heapVa start ∧ gap start count ∧ ∀ other count',
      gap other count' →
      count' ≤ count ∧ (count' = count → start ≤ other)
  null : (∀ start count, gap start count → count < numPages) → va = 0

/-- What `find_customfit` remembers of the gaps it has passed. -/
structure Fit.Chosen (gap : Nat → Nat → Prop) (numPages : Nat) (fit : Fit) : Prop where
  exact : (fit.firstExactVa = 0 ∧ ∀ start, ¬ gap start numPages) ∨
    ∃ start, fit.firstExactVa = heapVa start ∧ gap start numPages ∧
      ∀ other, gap other numPages → start ≤ other
  worst : (fit.worstSize = 0 ∧ ∀ start count, gap start count → count < numPages) ∨
    ∃ start, fit.worstVa = heapVa start ∧ gap start fit.worstSize ∧
      numPages ≤ fit.worstSize ∧
      ∀ other count, gap other count →
        count ≤ fit.worstSize ∧ (count = fit.worstSize → start ≤ other)

section Choice

variable {gap : Nat → Nat → Prop} {numPages index count : Nat} {fit : Fit}

theorem Fit.chosen_initial (none : ∀ start count, ¬ gap start count) :
    Fit.Chosen gap numPages ⟨0, 0, 0⟩ where
  exact := .inl ⟨rfl, fun start found => none start numPages found⟩
  worst := .inl ⟨rfl, fun start count found => absurd found (none start count)⟩

/-- What is remembered depends on the gaps alone. -/
theorem Fit.Chosen.congr {gap' : Nat → Nat → Prop} (chosen : Fit.Chosen gap numPages fit)
    (same : ∀ start count, gap' start count ↔ gap start count) :
        Fit.Chosen gap' numPages fit := by
  rwa [show gap' = gap from funext fun start => funext fun count => propext (same start count)]

/-- The first exact fit after one more gap. -/
theorem Fit.Chosen.exact_update (chosen : Fit.Chosen gap numPages fit)
    (before : ∀ start count', gap start count' → start < index) :
    let next := fun start count' => gap start count' ∨ start = index ∧ count' = count
    let exactVa := if count = numPages ∧ fit.firstExactVa = 0 then heapVa index
      else fit.firstExactVa
    (exactVa = 0 ∧ ∀ start, ¬ next start numPages) ∨
      ∃ start, exactVa = heapVa start ∧ next start numPages ∧
        ∀ other, next other numPages → start ≤ other := by
  intro next exactVa
  rcases chosen.exact with ⟨null, none⟩ | ⟨start, found, isGap, lowest⟩
  · by_cases same : count = numPages
    · refine .inr ⟨index, if_pos ⟨same, null⟩, .inr ⟨rfl, same.symm⟩, ?_⟩
      rintro other (found | found)
      · exact absurd found (none other)
      · exact Nat.le_of_eq found.1.symm
    · refine .inl ⟨(if_neg fun both => same both.1).trans null, ?_⟩
      rintro start (found | found)
      · exact none start found
      · exact same found.2.symm
  · have kept : exactVa = fit.firstExactVa :=
      if_neg fun both => heapVa_ne_zero start (found.symm.trans both.2)
    refine .inr ⟨start, kept.trans found, .inl isGap, ?_⟩
    rintro other (found | found)
    · exact lowest other found
    · exact found.1 ▸ Nat.le_of_lt (before start numPages isGap)

/-- What is remembered of a gap, field by field. -/
theorem Fit.update_eq (fit : Fit) (numPages va count : Nat) :
    fit.update numPages va count =
      { firstExactVa := if count = numPages ∧ fit.firstExactVa = 0 then va
          else fit.firstExactVa
        worstVa := if numPages ≤ count ∧ fit.worstSize < count then va else fit.worstVa
        worstSize := if numPages ≤ count ∧ fit.worstSize < count then count
          else fit.worstSize } := by
  unfold Fit.update
  by_cases exact : count = numPages ∧ fit.firstExactVa = 0
  · simp only [if_pos exact]
    split_ifs <;> rfl
  · simp only [if_neg exact]
    split_ifs <;> rfl

/-- Taking the next gap into account keeps the right ones remembered. -/
theorem Fit.Chosen.update (chosen : Fit.Chosen gap numPages fit) (positive : 0 < numPages)
    (before : ∀ start count', gap start count' → start < index) :
    Fit.Chosen (fun start count' => gap start count' ∨ start = index ∧ count' = count) numPages
      (fit.update numPages (heapVa index) count) := by
  have exactFit := @Fit.Chosen.exact_update _ _ _ count _ chosen before
  rw [Fit.update_eq]
  refine ⟨exactFit, ?_⟩
  by_cases worse : numPages ≤ count ∧ fit.worstSize < count
  · simp only [if_pos worse]
    refine .inr ⟨index, rfl, .inr ⟨rfl, trivial⟩, worse.1, ?_⟩
    rintro other count' (found | ⟨rfl, rfl⟩)
    · rcases chosen.worst with ⟨_, small⟩ | ⟨start, _, _, _, largest⟩
      · have short := small other count' found
        omega
      · have short := (largest other count' found).1
        omega
    · exact ⟨Nat.le_refl _, fun _ => Nat.le_refl _⟩
  · simp only [if_neg worse]
    rcases chosen.worst with ⟨none, small⟩ | ⟨start, found, isGap, enough, largest⟩
    · refine .inl ⟨none, ?_⟩
      rintro other count' (found | ⟨rfl, rfl⟩)
      · exact small other count' found
      · omega
    · refine .inr ⟨start, found, .inl isGap, enough, ?_⟩
      rintro other count' (found | ⟨rfl, rfl⟩)
      · exact largest other count' found
      · exact ⟨by omega, fun _ => Nat.le_of_lt (before start _ isGap)⟩

/-- The result of `find_customfit` is the choice among all gaps its scan has passed. -/
theorem Fit.Chosen.customFit {heap : KHeap β} (chosen : Fit.Chosen gap numPages fit)
    (positive : 0 < numPages)
    (scanned : heap.scanFreeSpace numPages kheapPageAllocStart ⟨0, 0, 0⟩ (kheapPagesCount + 1) =
      .ok fit) :
    ∃ va, heap.findCustomfit numPages = .ok va ∧ CustomFit gap numPages va := by
  have result : heap.findCustomfit numPages = .ok (if fit.firstExactVa ≠ 0 then fit.firstExactVa
      else if numPages ≤ fit.worstSize then fit.worstVa else 0) := by
    rw [findCustomfit, scanned]
    change (if fit.firstExactVa ≠ 0 then Except.ok fit.firstExactVa
      else if numPages ≤ fit.worstSize then .ok fit.worstVa else .ok 0) = _
    split_ifs <;> rfl
  refine ⟨_, result, ?_, ?_, ?_⟩
  · rintro ⟨start, found⟩
    obtain ⟨start, isVa, isGap, lowest⟩ := chosen.exact.resolve_left fun none =>
      none.2 start found
    have nonzero : fit.firstExactVa ≠ 0 := isVa ▸ heapVa_ne_zero start
    exact ⟨start, (if_pos nonzero).trans isVa, isGap, lowest⟩
  · rintro inexact ⟨start, count, found, enough⟩
    have null : ¬ fit.firstExactVa ≠ 0 := not_not.mpr <| (chosen.exact.resolve_right
      fun exact => inexact (exact.imp fun _ gap => gap.2.1)).1
    obtain ⟨start, isVa, isGap, enough, largest⟩ := chosen.worst.resolve_left fun none =>
      absurd (none.2 start count found) (by omega)
    exact ⟨start, fit.worstSize, (if_neg null).trans ((if_pos enough).trans isVa),
      isGap, largest⟩
  · intro short
    have null : ¬ fit.firstExactVa ≠ 0 := not_not.mpr <| (chosen.exact.resolve_right
      fun exact => exact.elim fun start gap => Nat.lt_irrefl _ (short start numPages gap.2.1)).1
    have small : ¬ numPages ≤ fit.worstSize := by
      rcases chosen.worst with ⟨none, _⟩ | ⟨start, _, isGap, _⟩
      · omega
      · exact Nat.not_le.mpr (short start _ isGap)
    exact (if_neg null).trans (if_neg small)

end Choice

variable {heap : KHeap β} {top : Nat}

/-- A run inside the heap is as long as its size says, without wrapping. -/
theorem RunsRecorded.pagesOf_eq (recorded : heap.RunsRecorded top) (index : Nat) :
    pagesOf (heap.kallocationSizes index) = heap.allocatedPages index := by
  have limit : kheapPagesCount = 40959 := by decide
  have top_le := recorded.top_le
  refine FosKernel.pagesOf_eq ?_
  rcases Nat.eq_zero_or_pos (heap.allocatedPages index) with none | positive
  · simp only [allocatedPages, pageSize] at *
    omega
  · have upper := recorded.packed.le_high index positive
    simp only [allocatedPages, pageSize] at *
    omega

theorem allocatedPages_pos {index : Nat} :
    0 < heap.allocatedPages index ↔ heap.kallocationSizes index ≠ 0 := by
  simp only [allocatedPages, pageSize]
  omega

/-- Every well-formed heap records disjoint runs. -/
theorem WellFormed.runsRecorded (wellFormed : heap.WellFormed top) : heap.RunsRecorded top where
  break_eq := wellFormed.break_eq
  firstPage_le := wellFormed.firstPage_le
  top_le := wellFormed.top_le
  packed := by
    have same : heap.allocatedPages = heap.runLength := by
      funext index
      rw [runLength, FosKernel.pagesOf_eq, allocatedPages]
      by_cases free : heap.kallocationSizes index = 0
      · rw [free]
        decide
      · exact (wellFormed.sizes index free).2
    rw [same]
    exact wellFormed.packed

/-- The gaps that begin below a page. -/
def GapBelow (heap : KHeap β) (top index start count : Nat) : Prop :=
  heap.Gap top start count ∧ start < index

/-- No gap begins inside an allocation. -/
theorem gapBelow_of_run {index : Nat} (start count : Nat) :
    heap.GapBelow top (index + heap.allocatedPages index) start count ↔
      heap.GapBelow top index start count := by
  refine and_congr_right fun isGap => ⟨fun below => ?_, fun below => by omega⟩
  by_contra above
  exact isGap.uncovered start (Nat.le_refl _) (Nat.lt_add_of_pos_right isGap.positive)
    ⟨index, by omega, below⟩

/-- A gap is the only one that begins in it. -/
theorem gapBelow_of_gap {index count : Nat} (isGap : heap.Gap top index count)
    (start count' : Nat) :
    heap.GapBelow top (index + count) start count' ↔
      heap.GapBelow top index start count' ∨ start = index ∧ count' = count := by
  constructor
  · rintro ⟨other, below⟩
    by_cases before : start < index
    · exact .inl ⟨other, before⟩
    · obtain rfl := isGap.start_eq other (by omega) below
      exact .inr ⟨rfl, other.count_eq isGap⟩
  · rintro (⟨other, below⟩ | ⟨rfl, rfl⟩)
    · exact ⟨other, by omega⟩
    · exact ⟨isGap, Nat.lt_add_of_pos_right isGap.positive⟩

/-- The scan stands at the lower edge of a gap or of an allocation. -/
structure AtEdge (heap : KHeap β) (top index : Nat) : Prop where
  lower : firstPage ≤ index
  upper : index ≤ top
  unstraddled : Runs.Unstraddled heap.allocatedPages index
  edge : index < top → heap.kallocationSizes index = 0 → firstPage < index →
    Runs.Covered heap.allocatedPages (index - 1)

/-- The outer loop ends and remembers the right gaps. -/
theorem RunsRecorded.scanFreeSpace_spec (recorded : heap.RunsRecorded top)
    {numPages index fuel : Nat} {fit : Fit} (positive : 0 < numPages)
    (stands : heap.AtEdge top index) (enough : top - index < fuel)
    (chosen : Fit.Chosen (heap.GapBelow top index) numPages fit) :
    ∃ result, heap.scanFreeSpace numPages (heapVa index) fit fuel = .ok result ∧
      Fit.Chosen (heap.Gap top) numPages result := by
  induction fuel generalizing index fit with
  | zero => omega
  | succ fuel ih =>
      have top_le := recorded.top_le
      obtain ⟨lower, upper, unstraddled, edge⟩ := stands
      simp only [scanFreeSpace, recorded.break_eq, heapVa_lt_iff]
      by_cases below : index < top
      · rw [if_pos below, kvaToIndex_heapVa (by omega)]
        by_cases used : heap.kallocationSizes index ≠ 0
        · have long := allocatedPages_pos.mpr used
          have ends := recorded.packed.le_high index long
          rw [if_pos used, recorded.pagesOf_eq, add32_heapVa (by omega)]
          refine ih ⟨by omega, ends, recorded.packed.unstraddled_end long, ?_⟩ (by omega)
            (chosen.congr gapBelow_of_run)
          intro _ _ _
          exact ⟨index, by omega, by omega⟩
        · have free := not_not.mp used
          obtain ⟨count, counted, upper', empty, ends⟩ := countFreeSpace_spec recorded.break_eq
            top_le upper (show top - index < kheapPagesCount + 1 by omega)
          have nonempty : 0 < count := by
            rcases Nat.eq_zero_or_pos count with rfl | nonempty
            · exact absurd free (ends below)
            · exact nonempty
          have empty' : ∀ page, index ≤ page → page < index + count →
              heap.allocatedPages page = 0 := by
            intro page above under
            by_contra used
            exact allocatedPages_pos.mp (Nat.pos_of_ne_zero used) (empty page above under)
          have isGap : heap.Gap top index count :=
            { low_le := lower
              le_high := upper'
              positive := nonempty
              uncovered := fun page above under => unstraddled.not_covered empty' above under
              left_edge := edge below free
              right_edge := fun inside => ⟨index + count, Nat.le_refl _,
                Nat.lt_add_of_pos_right (allocatedPages_pos.mpr (ends inside))⟩ }
          rw [if_neg used, counted]
          change ∃ result, heap.scanFreeSpace numPages
            (add32 (heapVa index) (count * pageSize)) _ fuel = .ok result ∧ _
          rw [add32_heapVa (by omega)]
          refine ih ⟨by omega, upper', unstraddled.add_gap empty', ?_⟩ (by omega)
            ((chosen.update positive fun start count' found => found.2).congr
              (gapBelow_of_gap isGap))
          intro inside unused _
          exact absurd unused (ends inside)
      · rw [if_neg below]
        refine ⟨fit, rfl, chosen.congr fun start count =>
          ⟨fun isGap => ⟨isGap, ?_⟩, And.left⟩⟩
        have inside := isGap.le_high
        have nonempty := isGap.positive
        omega

/-- **`find_customfit` returns the lowest exact fit, else the lowest of the largest gaps that
is long enough, else 0.** -/
theorem findCustomfit_chooses (heap : KHeap β) (top numPages : Nat)
    (recorded : heap.RunsRecorded top) (positive : 1 ≤ numPages) :
    ∃ va, heap.findCustomfit numPages = .ok va ∧ CustomFit (heap.Gap top) numPages va := by
  have lower := recorded.firstPage_le
  have top_le := recorded.top_le
  have start : heap.AtEdge top firstPage :=
    { lower := Nat.le_refl _
      upper := lower
      unstraddled := recorded.packed.unstraddled_low
      edge := fun _ _ impossible => absurd impossible (Nat.lt_irrefl _) }
  obtain ⟨fit, scanned, chosen⟩ := recorded.scanFreeSpace_spec positive start
    (show top - firstPage < kheapPagesCount + 1 by omega)
    (Fit.chosen_initial fun other count below =>
      absurd below.2 (Nat.not_lt.mpr below.1.low_le))
  rw [heapVa_firstPage] at scanned
  exact chosen.customFit positive scanned

/-- A heap with one allocation of two pages, between gaps of three and two pages. -/
def twoGaps : KHeap Unit where
  memory := Memory.blank
  blocks := ()
  kallocationSizes := Function.update (fun _ => 0) (firstPage + 3) 5000
  kheapPageAllocBreak := heapVa (firstPage + 7)

theorem twoGaps_runsRecorded : twoGaps.RunsRecorded (firstPage + 7) where
  break_eq := rfl
  firstPage_le := Nat.le_add_right ..
  top_le := by decide
  packed := by
    have runs : twoGaps.allocatedPages = Function.update (fun _ => 0) (firstPage + 3) 2 := by
      funext index
      by_cases same : index = firstPage + 3
      · subst same
        simp [allocatedPages, twoGaps, pageSize]
      · simp [allocatedPages, twoGaps, pageSize, Function.update_of_ne same]
    rw [runs]
    refine (Runs.packed_zero firstPage (firstPage + 7)).update (Nat.le_add_right ..)
      (fun _ => by omega) (fun other _ positive => absurd positive (Nat.lt_irrefl 0)) ?_
    intro cell _ _ _
    exact Runs.not_covered_zero cell

/-- Two pages fit exactly behind the allocation. -/
theorem findCustomfit_chooses_twoGaps :
    ∃ va, twoGaps.findCustomfit 2 = .ok va ∧ CustomFit (twoGaps.Gap (firstPage + 7)) 2 va :=
  findCustomfit_chooses twoGaps (firstPage + 7) 2 twoGaps_runsRecorded (by decide)

end KHeap

end FosKernel
