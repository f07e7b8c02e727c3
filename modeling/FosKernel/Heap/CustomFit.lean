import FosKernel.Heap.Pages
import FosKernel.Lib.Runs

/-!
# Custom fit

The well-formed states of the kernel heap, and what `find_customfit` finds in
them: the loops end, and the space they return is free.
-/

namespace FosKernel

namespace KHeap

variable {β : Type}

/-- The number of pages of the allocation that starts at a page. -/
def runLength (heap : KHeap β) (index : Nat) : Nat := pagesOf (heap.kallocationSizes index)

/-- A well-formed kernel heap, with the index of the page at its break. -/
structure WellFormed (heap : KHeap β) (top : Nat) : Prop where
  pages : HeapPages heap.memory
  break_eq : heap.kheapPageAllocBreak = heapVa top
  firstPage_le : firstPage ≤ top
  top_le : top ≤ kheapPagesCount
  sizes : ∀ index, heap.kallocationSizes index ≠ 0 →
    dynAllocMaxBlockSize < heap.kallocationSizes index ∧
      heap.kallocationSizes index ≤ 2 ^ 32 - pageSize
  packed : Runs.Packed heap.runLength firstPage top
  present_iff : ∀ index, firstPage ≤ index → index < kheapPagesCount →
    ((heapEntry heap.memory index).present = true ↔ Runs.Covered heap.runLength index)
  tight : top = firstPage ∨ Runs.Covered heap.runLength (top - 1)

variable {heap : KHeap β} {top : Nat}

/-- A recorded size covers pages. -/
theorem WellFormed.runLength_pos (wellFormed : heap.WellFormed top) {index : Nat}
    (recorded : heap.kallocationSizes index ≠ 0) : 0 < heap.runLength index :=
  pagesOf_pos (Nat.pos_of_ne_zero recorded) (wellFormed.sizes index recorded).2

theorem runLength_eq_zero {index : Nat} (free : heap.kallocationSizes index = 0) :
    heap.runLength index = 0 := by
  rw [runLength, free]
  decide

theorem WellFormed.recorded_iff (wellFormed : heap.WellFormed top) {index : Nat} :
    heap.kallocationSizes index ≠ 0 ↔ 0 < heap.runLength index := by
  constructor
  · exact wellFormed.runLength_pos
  · intro positive free
    rw [runLength_eq_zero free] at positive
    exact Nat.lt_irrefl 0 positive

/-- Consecutive pages below the break that no allocation covers. -/
structure FreeSpace (heap : KHeap β) (top index count : Nat) : Prop where
  lower : firstPage ≤ index
  upper : index + count ≤ top
  free : ∀ page, index ≤ page → page < index + count → ¬ Runs.Covered heap.runLength page

/-- The pages of a free space are absent. -/
theorem WellFormed.absent_of_space (wellFormed : heap.WellFormed top) {top' index count : Nat}
    (space : heap.FreeSpace top' index count)
    (upper : index + count ≤ kheapPagesCount) (page : Nat)
    (above : index ≤ page) (below : page < index + count) :
    (heapEntry heap.memory page).present = false := by
  have free := space.free page above below
  have lower := space.lower
  rw [← wellFormed.present_iff page (by omega) (by omega)] at free
  exact Bool.eq_false_iff.mpr free

/-- A shorter free space at the same page. -/
theorem FreeSpace.mono {index count fewer : Nat} (space : heap.FreeSpace top index count)
    (le : fewer ≤ count) : heap.FreeSpace top index fewer where
  lower := space.lower
  upper := by
    have upper := space.upper
    omega
  free := fun page above below => space.free page above (by omega)

/-- What `find_customfit` remembers is space of at least the requested length. -/
structure Fit.Sound (space : Nat → Nat → Prop) (numPages : Nat) (fit : Fit) : Prop where
  exact : fit.firstExactVa ≠ 0 → ∃ index,
    fit.firstExactVa = heapVa index ∧ space index numPages
  worst : fit.worstVa ≠ 0 → ∃ index, fit.worstVa = heapVa index ∧ space index numPages

theorem Fit.sound_initial (space : Nat → Nat → Prop) (numPages : Nat) :
    Fit.Sound space numPages ⟨0, 0, 0⟩ where
  exact := fun nonzero => absurd rfl nonzero
  worst := fun nonzero => absurd rfl nonzero

/-- Taking a space into account keeps what is remembered sound. -/
theorem Fit.Sound.update {space : Nat → Nat → Prop} {fit : Fit} {numPages index count : Nat}
    (sound : Fit.Sound space numPages fit) (found : numPages ≤ count → space index numPages) :
    Fit.Sound space numPages (fit.update numPages (heapVa index) count) := by
  have exactSound : ∀ fit : Fit, Fit.Sound space numPages fit → count = numPages →
      Fit.Sound space numPages { fit with firstExactVa := heapVa index } :=
    fun fit sound same => ⟨fun _ => ⟨index, rfl, found (Nat.le_of_eq same.symm)⟩,
      sound.worst⟩
  have worstSound : ∀ fit : Fit, Fit.Sound space numPages fit → numPages ≤ count →
      Fit.Sound space numPages { fit with worstVa := heapVa index, worstSize := count } :=
    fun fit sound le => ⟨sound.exact, fun _ => ⟨index, rfl, found le⟩⟩
  rw [Fit.update]
  by_cases exact : count = numPages ∧ fit.firstExactVa = 0
  · rw [if_pos exact]
    dsimp only
    split
    · rename_i worse
      exact worstSound _ (exactSound fit sound exact.1) worse.1
    · exact exactSound fit sound exact.1
  · rw [if_neg exact]
    split
    · rename_i worse
      exact worstSound fit sound worse.1
    · exact sound

/-- The result of `find_customfit` once its scan has returned. -/
theorem findCustomfit_of_scan {space : Nat → Nat → Prop} {fit : Fit} {numPages : Nat}
    (scanned : heap.scanFreeSpace numPages kheapPageAllocStart ⟨0, 0, 0⟩ (kheapPagesCount + 1) =
      .ok fit) (sound : Fit.Sound space numPages fit) :
    ∃ va, heap.findCustomfit numPages = .ok va ∧
      (va = 0 ∨ ∃ index, va = heapVa index ∧ space index numPages) := by
  rw [findCustomfit, scanned]
  change ∃ va, (if fit.firstExactVa ≠ 0 then Except.ok fit.firstExactVa
    else if numPages ≤ fit.worstSize then .ok fit.worstVa else .ok 0) = .ok va ∧ _
  by_cases exact : fit.firstExactVa ≠ 0
  · rw [if_pos exact]
    exact ⟨fit.firstExactVa, rfl, .inr (sound.exact exact)⟩
  · rw [if_neg exact]
    by_cases worst : numPages ≤ fit.worstSize
    · rw [if_pos worst]
      by_cases null : fit.worstVa = 0
      · exact ⟨fit.worstVa, rfl, .inl null⟩
      · exact ⟨fit.worstVa, rfl, .inr (sound.worst null)⟩
    · rw [if_neg worst]
      exact ⟨0, rfl, .inl rfl⟩

/-- The inner loop ends and counts the pages up to the break or the next allocation. -/
theorem countFreeSpace_spec (break_eq : heap.kheapPageAllocBreak = heapVa top)
    (top_le : top ≤ kheapPagesCount) {index fuel : Nat} (le : index ≤ top)
    (enough : top - index < fuel) :
    ∃ count, heap.countFreeSpace (heapVa index) index fuel = .ok count ∧
      index + count ≤ top ∧
      (∀ page, index ≤ page → page < index + count → heap.kallocationSizes page = 0) ∧
      (index + count < top → heap.kallocationSizes (index + count) ≠ 0) := by
  induction fuel generalizing index with
  | zero => omega
  | succ fuel ih =>
      rw [countFreeSpace, break_eq]
      by_cases open_ : heapVa index < heapVa top ∧ heap.kallocationSizes index = 0
      · have below : index < top := heapVa_lt_iff.mp open_.1
        obtain ⟨count, counted, upper, free, ends⟩ :=
          ih (show index + 1 ≤ top by omega) (by omega)
        refine ⟨count + 1, ?_, by omega, ?_, ?_⟩
        · rw [if_pos open_, add32_heapVa_one (by omega), counted]
          rfl
        · intro page above under
          by_cases same : page = index
          · rw [same]
            exact open_.2
          · exact free page (by omega) (by omega)
        · rw [show index + (count + 1) = index + 1 + count by omega]
          exact ends
      · rw [if_neg open_]
        refine ⟨0, rfl, le, fun page above under => by omega, ?_⟩
        intro below free
        exact open_ ⟨heapVa_lt_iff.mpr below, free⟩

/-- The outer loop ends, and what it remembers is sound. -/
theorem WellFormed.scanFreeSpace_spec (wellFormed : heap.WellFormed top) {numPages index fuel : Nat}
    {fit : Fit} (lower : firstPage ≤ index) (le : index ≤ top) (enough : top - index < fuel)
    (unstraddled : Runs.Unstraddled heap.runLength index)
    (sound : Fit.Sound (heap.FreeSpace top) numPages fit) :
    ∃ result, heap.scanFreeSpace numPages (heapVa index) fit fuel = .ok result ∧
      Fit.Sound (heap.FreeSpace top) numPages result := by
  induction fuel generalizing index fit with
  | zero => omega
  | succ fuel ih =>
      have top_le := wellFormed.top_le
      simp only [scanFreeSpace, wellFormed.break_eq, heapVa_lt_iff]
      by_cases below : index < top
      · rw [if_pos below, kvaToIndex_heapVa (by omega)]
        by_cases recorded : heap.kallocationSizes index ≠ 0
        · have positive := wellFormed.runLength_pos recorded
          have ends := wellFormed.packed.le_high index positive
          rw [if_pos recorded, ← runLength, add32_heapVa (by omega)]
          exact ih (by omega) ends (by omega) (wellFormed.packed.unstraddled_end positive) sound
        · have free := not_not.mp recorded
          obtain ⟨count, counted, upper, empty, ends⟩ := countFreeSpace_spec wellFormed.break_eq
            top_le le (show top - index < kheapPagesCount + 1 by omega)
          have positive : 0 < count := by
            rcases Nat.eq_zero_or_pos count with rfl | positive
            · exact absurd free (ends below)
            · exact positive
          have empty' : ∀ page, index ≤ page → page < index + count →
              heap.runLength page = 0 :=
            fun page above under => runLength_eq_zero (empty page above under)
          have space : heap.FreeSpace top index count :=
            ⟨lower, upper, fun page above under => unstraddled.not_covered empty' above under⟩
          rw [if_neg recorded, counted]
          change ∃ result, heap.scanFreeSpace numPages
            (add32 (heapVa index) (count * pageSize)) _ fuel = .ok result ∧ _
          rw [add32_heapVa (by omega)]
          exact ih (by omega) upper (by omega) (unstraddled.add_gap empty')
            (sound.update fun le => space.mono le)
      · rw [if_neg below]
        exact ⟨fit, rfl, sound⟩

/-- `find_customfit` returns 0 or free space of the requested length. -/
theorem WellFormed.findCustomfit_spec (wellFormed : heap.WellFormed top) (numPages : Nat) :
    ∃ va, heap.findCustomfit numPages = .ok va ∧
      (va = 0 ∨ ∃ index, va = heapVa index ∧ heap.FreeSpace top index numPages) := by
  have lower := wellFormed.firstPage_le
  have upper := wellFormed.top_le
  obtain ⟨fit, scanned, sound⟩ := wellFormed.scanFreeSpace_spec (Nat.le_refl firstPage) lower
    (show top - firstPage < kheapPagesCount + 1 by omega) wellFormed.packed.unstraddled_low
    (Fit.sound_initial _ numPages)
  rw [heapVa_firstPage] at scanned
  exact findCustomfit_of_scan scanned sound

end KHeap

end FosKernel
