import FosKernel.Inc.Environment
import FosKernel.Lib.DemandPaging
import Mathlib.Data.List.TakeDrop
import Mathlib.Data.Finset.Dedup

/-!
# The number of faults of optimal replacement

`get_optimal_num_faults` replays a reference stream on a copy of the initial
working set and evicts the page whose next use is farthest. It attains the
minimum number of faults over all demand-paging schedules.
-/

namespace FosKernel

open DemandPaging

/-- The loop over `j`: whether a page occurs in the rest of the stream, and the
number of steps taken. -/
def scanFuture (page : Nat) : List Nat → Nat → Bool × Nat
  | [], steps => (false, steps)
  | ref :: refs, steps => if page = ref then (true, steps) else scanFuture page refs (steps + 1)

/-- The `distance` of a page: its steps to the next use, or 1000000000 when there is none. -/
def futureDistance (page : Nat) (future : List Nat) : Nat :=
  match scanFuture page future 0 with
  | (true, steps) => steps
  | (false, _) => 1000000000

/-- The loop over `k`: the index of the first page whose distance exceeds all
earlier ones, starting from index 0 with distance 0. -/
def selectFarthest (future : List Nat) : List Nat → Nat → Nat → Nat → Nat
  | [], _, _, maxStepsIndex => maxStepsIndex
  | page :: pages, k, maxSteps, maxStepsIndex =>
      if maxSteps < futureDistance page future then
        selectFarthest future pages (k + 1) (futureDistance page future) k
      else selectFarthest future pages (k + 1) maxSteps maxStepsIndex

/-- The loop over `i`: replay the references on the working-set copy. -/
def replayStream (maxWSSize : Nat) : List Nat → List Nat → Nat → Nat
  | [], _, faultCount => faultCount
  | ref :: refs, wsCopy, faultCount =>
      if ref ∈ wsCopy then replayStream maxWSSize refs wsCopy faultCount
      else if wsCopy.length = maxWSSize then
        replayStream maxWSSize refs (wsCopy.set (selectFarthest refs wsCopy 0 0 0) ref)
          (faultCount + 1)
      else replayStream maxWSSize refs (wsCopy ++ [ref]) (faultCount + 1)

/-- What a call of `get_optimal_num_faults` leaves behind. -/
structure OptimalFaults where
  faultCount : Nat
  initWorkingSet : ListHead WorkingSetElement
  pageReferences : ListHead PageRefElement

/-- `get_optimal_num_faults`. The result is `none` when the allocation of the
stream copy fails and the kernel panics. -/
def getOptimalNumFaults (kmalloc : Nat → Nat) (initWorkingSet : ListHead WorkingSetElement)
    (maxWSSize : Nat) (pageReferences : ListHead PageRefElement) : Option OptimalFaults :=
  let wsCopy := initWorkingSet.forEachSafe (fun copy element =>
    if copy.length < maxWSSize then copy ++ [element.virtualAddress] else copy) []
  if kmalloc (4 * pageReferences.elements.length) = 0 then none
  else
    let (refStreamCopy, pageReferences) := pageReferences.forEach
      (fun copy ref => copy ++ [ref.virtualAddress]) []
    some ⟨replayStream maxWSSize refStreamCopy wsCopy 0, initWorkingSet, pageReferences⟩

theorem scanFuture_eq (page : Nat) (future : List Nat) :
    ∀ steps, scanFuture page future steps =
      (decide (page ∈ future), steps + future.idxOf page) := by
  induction future with
  | nil => intro steps; rfl
  | cons ref refs ih =>
      intro steps
      by_cases same : page = ref
      · simp [scanFuture, same]
      · simp only [scanFuture, same, ↓reduceIte, ih, List.mem_cons, false_or,
          List.idxOf_cons_ne _ (Ne.symm same), Prod.mk.injEq, true_and]
        omega

theorem futureDistance_eq (page : Nat) (future : List Nat) :
    futureDistance page future =
      if page ∈ future then future.idxOf page else 1000000000 := by
  unfold futureDistance
  rw [scanFuture_eq]
  by_cases used : page ∈ future <;> simp [used]

/-- A page whose first use is no later than another's is used sooner. -/
theorem usedSooner_of_idxOf_le {sooner later : Nat} {refs : List Nat}
    (order : later ∈ refs → sooner ∈ refs ∧ refs.idxOf sooner ≤ refs.idxOf later) :
    UsedSooner sooner later refs := by
  induction refs with
  | nil => trivial
  | cons ref refs ih =>
      by_cases first : ref = sooner
      · exact .inl first
      · have notLater : ref ≠ later := by
          rintro rfl
          have bound := (order (List.mem_cons_self ..)).2
          rw [List.idxOf_cons_ne _ first, List.idxOf_cons_self] at bound
          exact Nat.not_succ_le_zero _ bound
        refine .inr ⟨notLater, ih fun used => ?_⟩
        obtain ⟨present, bound⟩ := order (List.mem_cons_of_mem _ used)
        rw [List.idxOf_cons_ne _ first, List.idxOf_cons_ne _ notLater] at bound
        exact ⟨(List.mem_cons.mp present).resolve_left (Ne.symm first), by omega⟩

/-- In a stream shorter than the sentinel, a page at no greater distance is used sooner. -/
theorem usedSooner_of_futureDistance_le {sooner later : Nat} {refs : List Nat}
    (short : refs.length < 1000000000)
    (closer : futureDistance sooner refs ≤ futureDistance later refs) :
    UsedSooner sooner later refs := by
  apply usedSooner_of_idxOf_le
  intro used
  have near : refs.idxOf later < refs.length := List.idxOf_lt_length_iff.mpr used
  rw [futureDistance_eq, futureDistance_eq, if_pos used] at closer
  by_cases present : sooner ∈ refs
  · rw [if_pos present] at closer
    exact ⟨present, closer⟩
  · rw [if_neg present] at closer
    omega

/-- The selected index holds a page at maximal distance, or the scan kept its
start because no page exceeds the starting distance. -/
theorem selectFarthest_spec (future : List Nat) (pages : List Nat) :
    ∀ k maxSteps index,
      (selectFarthest future pages k maxSteps index = index ∧
        ∀ page ∈ pages, futureDistance page future ≤ maxSteps) ∨
      ∃ offset, ∃ inside : offset < pages.length,
        selectFarthest future pages k maxSteps index = k + offset ∧
        maxSteps < futureDistance pages[offset] future ∧
        ∀ page ∈ pages, futureDistance page future ≤ futureDistance pages[offset] future := by
  induction pages with
  | nil => intro k maxSteps index; exact .inl ⟨rfl, by simp⟩
  | cons head pages ih =>
      intro k maxSteps index
      by_cases exceeds : maxSteps < futureDistance head future
      · simp only [selectFarthest, exceeds, ↓reduceIte]
        right
        rcases ih (k + 1) (futureDistance head future) k with
          ⟨kept, bound⟩ | ⟨offset, inside, moved, larger, bound⟩
        · exact ⟨0, by simp, by simpa using kept, by simpa using exceeds, by simpa using bound⟩
        · refine ⟨offset + 1, by simpa using inside, by omega, ?_, ?_⟩
          · exact exceeds.trans (by simpa using larger)
          · simpa using ⟨larger.le, bound⟩
      · simp only [selectFarthest, exceeds, ↓reduceIte]
        rcases ih (k + 1) maxSteps index with
          ⟨kept, bound⟩ | ⟨offset, inside, moved, larger, bound⟩
        · exact .inl ⟨kept, by simpa using ⟨Nat.le_of_not_lt exceeds, bound⟩⟩
        · refine .inr ⟨offset + 1, by simpa using inside, by omega, by simpa using larger, ?_⟩
          simpa using ⟨(Nat.le_of_not_lt exceeds).trans larger.le, bound⟩

/-- On a nonempty working set the selected victim is at maximal distance. -/
theorem selectFarthest_maximal (future pages : List Nat) (nonempty : pages ≠ []) :
    ∃ inside : selectFarthest future pages 0 0 0 < pages.length,
      ∀ page ∈ pages, futureDistance page future ≤
        futureDistance pages[selectFarthest future pages 0 0 0] future := by
  rcases selectFarthest_spec future pages 0 0 0 with
    ⟨kept, bound⟩ | ⟨offset, inside, moved, _, bound⟩
  · have positive : 0 < pages.length := List.length_pos_of_ne_nil nonempty
    refine ⟨by rwa [kept], fun page member => ?_⟩
    exact (bound page member).trans (Nat.zero_le _)
  · have same : selectFarthest future pages 0 0 0 = offset := by omega
    simp only [same]
    exact ⟨inside, bound⟩

/-- Replacing one entry of a duplicate-free array replaces it in the set of entries. -/
theorem toFinset_set {pages : List Nat} {index page : Nat} (nodup : pages.Nodup)
    (inside : index < pages.length) (absent : page ∉ pages) :
    (pages.set index page).Nodup ∧
      (pages.set index page).toFinset = insert page (pages.toFinset.erase pages[index]) := by
  refine ⟨nodup.set absent, ?_⟩
  ext query
  simp only [List.mem_toFinset, Finset.mem_insert, Finset.mem_erase]
  rw [List.mem_iff_getElem]
  constructor
  · rintro ⟨position, bound, rfl⟩
    rw [List.length_set] at bound
    rw [List.getElem_set]
    split
    · exact .inl rfl
    · rename_i different
      exact .inr ⟨fun same => different (nodup.getElem_inj_iff.mp same).symm,
        List.getElem_mem bound⟩
  · rintro (rfl | ⟨different, member⟩)
    · exact ⟨index, by simpa using inside, by simp⟩
    · obtain ⟨position, bound, rfl⟩ := List.mem_iff_getElem.mp member
      refine ⟨position, by simpa using bound, ?_⟩
      rw [List.getElem_set, if_neg]
      rintro rfl
      exact different rfl

/-- Replaying a stream follows the farthest-future policy on the set of copied pages. -/
theorem replayStream_farthest (maxWSSize : Nat) (positive : 1 ≤ maxWSSize) (refs : List Nat) :
    ∀ (wsCopy : List Nat) (faultCount : Nat), refs.length < 1000000000 → wsCopy.Nodup →
      wsCopy.length ≤ maxWSSize →
      ∃ faults, replayStream maxWSSize refs wsCopy faultCount = faultCount + faults ∧
        Farthest maxWSSize wsCopy.toFinset refs faults := by
  induction refs with
  | nil => exact fun wsCopy faultCount _ _ _ => ⟨0, rfl, .nil _⟩
  | cons ref refs ih =>
      intro wsCopy faultCount short nodup fits
      have shortRest : refs.length < 1000000000 := by
        rw [List.length_cons] at short
        omega
      have card : wsCopy.toFinset.card = wsCopy.length := List.toFinset_card_of_nodup nodup
      by_cases found : ref ∈ wsCopy
      · obtain ⟨faults, count, run⟩ := ih wsCopy faultCount shortRest nodup fits
        refine ⟨faults, ?_, .hit (List.mem_toFinset.mpr found) run⟩
        simpa only [replayStream, found, ↓reduceIte] using count
      have absent : ref ∉ wsCopy.toFinset := fun member => found (List.mem_toFinset.mp member)
      by_cases full : wsCopy.length = maxWSSize
      · obtain ⟨inside, maximal⟩ := selectFarthest_maximal refs wsCopy (by
          rintro rfl
          rw [List.length_nil] at full
          omega)
        obtain ⟨nodup', set⟩ := toFinset_set nodup inside found
        obtain ⟨faults, count, run⟩ :=
          ih _ (faultCount + 1) shortRest nodup' (by simpa using fits)
        refine ⟨faults + 1, ?_, ?_⟩
        · simp only [replayStream, found, ↓reduceIte, full, count]
          omega
        · rw [set] at run
          refine .evict absent (card.trans full) (List.mem_toFinset.mpr (List.getElem_mem inside))
            (fun other member => ?_) run
          exact usedSooner_of_futureDistance_le shortRest
            (maximal other (List.mem_toFinset.mp member))
      · have nodup' : (wsCopy ++ [ref]).Nodup := by
          rw [← List.concat_eq_append]
          exact nodup.concat found
        have set : (wsCopy ++ [ref]).toFinset = insert ref wsCopy.toFinset := by
          ext query
          simp
        obtain ⟨faults, count, run⟩ := ih _ (faultCount + 1) shortRest nodup' (by
          rw [List.length_append, List.length_singleton]
          omega)
        refine ⟨faults + 1, ?_, ?_⟩
        · simp only [replayStream, found, ↓reduceIte, full, count]
          omega
        · rw [set] at run
          exact .fill absent (by omega) run

/-- The bounded copy of a list that fits is the whole list. -/
theorem copy_initWorkingSet (elements : List WorkingSetElement) (maxWSSize : Nat) :
    ∀ copy : List Nat, copy.length + elements.length ≤ maxWSSize →
      elements.foldl (fun copy element =>
        if copy.length < maxWSSize then copy ++ [element.virtualAddress] else copy) copy =
      copy ++ elements.map WorkingSetElement.virtualAddress := by
  induction elements with
  | nil => simp
  | cons element elements ih =>
      intro copy fits
      rw [List.length_cons] at fits
      have room : copy.length < maxWSSize := by omega
      rw [List.foldl_cons, if_pos room, ih _ (by
        rw [List.length_append, List.length_singleton]
        omega)]
      simp

theorem copy_pageReferences (elements : List PageRefElement) :
    ∀ copy : List Nat, elements.foldl (fun copy ref => copy ++ [ref.virtualAddress]) copy =
      copy ++ elements.map PageRefElement.virtualAddress := by
  induction elements with
  | nil => simp
  | cons element elements ih => intro copy; simp [ih]

/-- `get_optimal_num_faults` returns the minimum number of faults over all
demand-paging schedules from the initial working set, and leaves both lists as
they were. -/
theorem getOptimalNumFaults_isLeast (kmalloc : Nat → Nat)
    (initWorkingSet : ListHead WorkingSetElement) (maxWSSize : Nat)
    (pageReferences : ListHead PageRefElement) (positive : 1 ≤ maxWSSize)
    (fits : initWorkingSet.elements.length ≤ maxWSSize)
    (distinct : (initWorkingSet.elements.map WorkingSetElement.virtualAddress).Nodup)
    (short : pageReferences.elements.length < 1000000000)
    (allocated : kmalloc (4 * pageReferences.elements.length) ≠ 0) :
    ∃ result, getOptimalNumFaults kmalloc initWorkingSet maxWSSize pageReferences =
        some result ∧
      IsLeast {faults | Schedule maxWSSize
          (initWorkingSet.elements.map WorkingSetElement.virtualAddress).toFinset
          (pageReferences.elements.map PageRefElement.virtualAddress) faults}
        result.faultCount ∧
      result.initWorkingSet = initWorkingSet ∧
      result.pageReferences.elements = pageReferences.elements := by
  have copied := copy_initWorkingSet initWorkingSet.elements maxWSSize [] (by simpa using fits)
  have streamed := copy_pageReferences pageReferences.elements []
  obtain ⟨faults, count, run⟩ := replayStream_farthest maxWSSize positive
    (pageReferences.elements.map PageRefElement.virtualAddress)
    (initWorkingSet.elements.map WorkingSetElement.virtualAddress) 0
    (by simpa using short) distinct (by simpa using fits)
  refine ⟨⟨faults, initWorkingSet, { pageReferences with ptrNext := none }⟩,
    ?_, ?_, rfl, rfl⟩
  · simp only [getOptimalNumFaults, ListHead.forEachSafe, ListHead.forEach, copied, streamed,
      List.nil_append, allocated, ↓reduceIte, count, Nat.zero_add]
  · exact run.isLeast (by simpa [List.toFinset_card_of_nodup distinct] using fits)

theorem getOptimalNumFaults_isLeast_two_slots :
    ∃ result, getOptimalNumFaults (fun _ => 0xF8001000) ⟨[⟨0x800000, 0⟩], none⟩ 2
        ⟨[⟨0x801000⟩, ⟨0x802000⟩, ⟨0x800000⟩], none⟩ = some result ∧
      IsLeast {faults | Schedule 2 ([0x800000] : List Nat).toFinset
        [0x801000, 0x802000, 0x800000] faults} result.faultCount ∧
      result.initWorkingSet = ⟨[⟨0x800000, 0⟩], none⟩ ∧
      result.pageReferences.elements = [⟨0x801000⟩, ⟨0x802000⟩, ⟨0x800000⟩] :=
  getOptimalNumFaults_isLeast (fun _ => 0xF8001000) ⟨[⟨0x800000, 0⟩], none⟩ 2
    ⟨[⟨0x801000⟩, ⟨0x802000⟩, ⟨0x800000⟩], none⟩ (by decide) (by decide)
      (by decide) (by decide)
    (by decide)

end FosKernel
