import Mathlib.Logic.Function.Basic

/-!
# Runs of cells

A table that gives for every cell the length of the run that starts there, with
0 for none. The runs of a *packed* table lie in an interval and do not overlap.
Giving a cell another run length, which covers allocation in a gap, release,
shrinking and growth, keeps the table packed as long as the cells it adds are
not covered.
-/

namespace Runs

/-- Some run contains a cell. -/
def Covered (length : Nat → Nat) (cell : Nat) : Prop :=
  ∃ start, start ≤ cell ∧ cell < start + length start

/-- All runs lie in an interval and are disjoint. -/
structure Packed (length : Nat → Nat) (low high : Nat) : Prop where
  low_le : ∀ start, 0 < length start → low ≤ start
  le_high : ∀ start, 0 < length start → start + length start ≤ high
  apart : ∀ first second, first < second → 0 < length first → 0 < length second →
    first + length first ≤ second

/-- No run that starts before a cell reaches beyond its lower edge. -/
def Unstraddled (length : Nat → Nat) (cell : Nat) : Prop :=
  ∀ start, start < cell → 0 < length start → start + length start ≤ cell

variable {length : Nat → Nat} {low high : Nat}

/-- A table without runs is packed in any interval. -/
theorem packed_zero (low high : Nat) : Packed (fun _ => 0) low high where
  low_le _ positive := absurd positive (Nat.lt_irrefl 0)
  le_high _ positive := absurd positive (Nat.lt_irrefl 0)
  apart _ _ _ positive _ := absurd positive (Nat.lt_irrefl 0)

theorem not_covered_zero (cell : Nat) : ¬ Covered (fun _ => 0) cell := fun ⟨_, below, above⟩ =>
  absurd above (Nat.not_lt.mpr below)

/-- Covered cells lie in the interval. -/
theorem Packed.bounds (packed : Packed length low high) {cell : Nat}
    (covered : Covered length cell) : low ≤ cell ∧ cell < high := by
  obtain ⟨start, below, above⟩ := covered
  have positive : 0 < length start := by omega
  have lower := packed.low_le start positive
  have upper := packed.le_high start positive
  omega

/-- A cell lies in one run at most. -/
theorem Packed.start_unique (packed : Packed length low high) {first second cell : Nat}
    (inFirst : first ≤ cell ∧ cell < first + length first)
    (inSecond : second ≤ cell ∧ cell < second + length second) : first = second := by
  have positiveFirst : 0 < length first := by omega
  have positiveSecond : 0 < length second := by omega
  obtain before | same | after := Nat.lt_trichotomy first second
  · have separate := packed.apart first second before positiveFirst positiveSecond
    omega
  · exact same
  · have separate := packed.apart second first after positiveSecond positiveFirst
    omega

/-- With another length for one run, the covered cells are those of the new run and the
cells of the others. -/
theorem Packed.covered_update (packed : Packed length low high) (start count cell : Nat) :
    Covered (Function.update length start count) cell ↔
      start ≤ cell ∧ cell < start + count ∨
        Covered length cell ∧ ¬ (start ≤ cell ∧ cell < start + length start) := by
  constructor
  · intro ⟨other, below, above⟩
    by_cases same : other = start
    · subst same
      rw [Function.update_self] at above
      exact .inl ⟨below, above⟩
    · rw [Function.update_of_ne same] at above
      exact .inr ⟨⟨other, below, above⟩,
        fun inside => same (packed.start_unique ⟨below, above⟩ inside)⟩
  · intro covered
    cases covered with
    | inl inside =>
        refine ⟨start, inside.1, ?_⟩
        rw [Function.update_self]
        exact inside.2
    | inr outside =>
        obtain ⟨⟨other, below, above⟩, apart⟩ := outside
        have different : other ≠ start := by
          intro same
          subst same
          exact apart ⟨below, above⟩
        refine ⟨other, below, ?_⟩
        rwa [Function.update_of_ne different]

/-- Another length for one run keeps the table packed when its new cells are not covered
by the other runs and everything lies in the new interval. -/
theorem Packed.update (packed : Packed length low high) {start count high' : Nat}
    (above : low ≤ start) (below : 0 < count → start + count ≤ high')
    (others : ∀ other, other ≠ start → 0 < length other → other + length other ≤ high')
    (free : ∀ cell, start ≤ cell → cell < start + count →
      ¬ (start ≤ cell ∧ cell < start + length start) → ¬ Covered length cell) :
    Packed (Function.update length start count) low high' := by
  have outside : ∀ other, other ≠ start → 0 < length other → 0 < count →
      other + length other ≤ start ∨ start + count ≤ other := by
    intro other different positive nonempty
    obtain before | same | after := Nat.lt_trichotomy other start
    · left
      by_contra crossing
      have covered : Covered length start := ⟨other, Nat.le_of_lt before, by omega⟩
      apply free start (Nat.le_refl _) (by omega) _ covered
      intro inside
      exact different (packed.start_unique ⟨Nat.le_of_lt before, by omega⟩ inside)
    · exact absurd same different
    · right
      by_contra crossing
      have covered : Covered length other := ⟨other, (Nat.le_refl _), by omega⟩
      apply free other (Nat.le_of_lt after) (by omega) _ covered
      intro inside
      exact different (packed.start_unique ⟨(Nat.le_refl _), by omega⟩ inside)
  constructor
  · intro other positive
    by_cases same : other = start
    · exact same ▸ above
    · rw [Function.update_of_ne same] at positive
      exact packed.low_le other positive
  · intro other positive
    by_cases same : other = start
    · subst same
      rw [Function.update_self] at positive ⊢
      exact below positive
    · rw [Function.update_of_ne same] at positive ⊢
      exact others other same positive
  · intro first second before positiveFirst positiveSecond
    by_cases sameFirst : first = start
    · subst sameFirst
      have different : second ≠ first := by omega
      rw [Function.update_self] at positiveFirst ⊢
      rw [Function.update_of_ne different] at positiveSecond
      have sides := outside second different positiveSecond positiveFirst
      omega
    · rw [Function.update_of_ne sameFirst] at positiveFirst ⊢
      by_cases sameSecond : second = start
      · subst sameSecond
        rw [Function.update_self] at positiveSecond
        have sides := outside first sameFirst positiveFirst positiveSecond
        omega
      · rw [Function.update_of_ne sameSecond] at positiveSecond
        exact packed.apart first second before positiveFirst positiveSecond

/-- Cells from an unstraddled one on are not covered as long as no run starts there. -/
theorem Unstraddled.not_covered {cell count : Nat} (unstraddled : Unstraddled length cell)
    (empty : ∀ other, cell ≤ other → other < cell + count → length other = 0) {other : Nat}
    (lower : cell ≤ other) (upper : other < cell + count) : ¬ Covered length other := by
  intro ⟨start, below, above⟩
  by_cases before : start < cell
  · have ends := unstraddled start before (by omega)
    omega
  · have none := empty start (by omega) (by omega)
    omega

/-- A gap after an unstraddled cell ends at an unstraddled one. -/
theorem Unstraddled.add_gap {cell count : Nat} (unstraddled : Unstraddled length cell)
    (empty : ∀ other, cell ≤ other → other < cell + count → length other = 0) :
    Unstraddled length (cell + count) := by
  intro start before positive
  by_cases earlier : start < cell
  · have ends := unstraddled start earlier positive
    omega
  · have none := empty start (by omega) before
    omega

/-- A run ends at an unstraddled cell. -/
theorem Packed.unstraddled_end (packed : Packed length low high) {cell : Nat}
    (positive : 0 < length cell) : Unstraddled length (cell + length cell) := by
  intro start before nonempty
  obtain earlier | same | later := Nat.lt_trichotomy start cell
  · have ends := packed.apart start cell earlier nonempty positive
    omega
  · exact Nat.le_of_eq (by rw [same])
  · have starts := packed.apart cell start later positive nonempty
    omega

theorem Packed.unstraddled_low (packed : Packed length low high) : Unstraddled length low := by
  intro start before positive
  have above := packed.low_le start positive
  omega

/-- A maximal block of uncovered cells of an interval. -/
structure Gap (length : Nat → Nat) (low high start count : Nat) : Prop where
  low_le : low ≤ start
  le_high : start + count ≤ high
  positive : 0 < count
  uncovered : ∀ cell, start ≤ cell → cell < start + count → ¬ Covered length cell
  left_edge : low < start → Covered length (start - 1)
  right_edge : start + count < high → Covered length (start + count)

/-- A gap does not begin inside another one. -/
theorem Gap.start_eq {first firstCount second secondCount : Nat}
    (one : Gap length low high first firstCount) (other : Gap length low high second secondCount)
    (above : first ≤ second) (below : second < first + firstCount) : first = second := by
  by_contra different
  have lower := one.low_le
  exact one.uncovered (second - 1) (by omega) (by omega) (other.left_edge (by omega))

/-- A gap is determined by the cell where it begins. -/
theorem Gap.count_eq {start count count' : Nat} (one : Gap length low high start count)
    (other : Gap length low high start count') : count = count' := by
  have le_of : ∀ {count count' : Nat}, Gap length low high start count →
      Gap length low high start count' → count' ≤ count := by
    intro count count' one other
    by_contra longer
    have inside := other.le_high
    exact other.uncovered (start + count) (by omega) (by omega) (one.right_edge (by omega))
  exact Nat.le_antisymm (le_of other one) (le_of one other)

end Runs
