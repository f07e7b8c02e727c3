import Mathlib.Data.List.Rotate

/-!
# Clocks

A circular buffer with a hand, read as the sequence of its elements from the hand
on. The clock's hand passes the elements that were used and clears their marks;
it stops at the first element that was not used, or, when all were, where it
started. The elements behind the one that it chooses then come first.
-/

namespace ClockRing

variable {ν : Type*}

/-- The elements of a list in circular order from one of them. -/
def ringFrom [DecidableEq ν] (list : List ν) (hand : ν) : List ν :=
  list.rotate (list.idxOf hand)

theorem ringFrom_append [DecidableEq ν] {front back : List ν} {hand : ν}
    (outside : hand ∉ front) :
    ringFrom (front ++ hand :: back) hand = hand :: (back ++ front) := by
  rw [ringFrom, List.idxOf_append_of_notMem outside, List.idxOf_cons_self, Nat.add_zero,
    List.rotate_append_length_eq, List.cons_append]

/-- The choice of a clock on a ring that starts at the hand: the chosen element, the elements
whose marks are cleared, and the ring from the next element on without the chosen one. -/
inductive ClockChoice (used : ν → Bool) (ring : List ν) : ν → List ν → List ν → Prop
  | unused {passed rest : List ν} {victim : ν} (split : ring = passed ++ victim :: rest)
      (skipped : ∀ element ∈ passed, used element = true) (free : used victim = false) :
      ClockChoice used ring victim passed (rest ++ passed)
  | wrapped {rest : List ν} {victim : ν} (split : ring = victim :: rest)
      (all : ∀ element ∈ ring, used element = true) : ClockChoice used ring victim ring rest

/-- The first element of the least rank, with the elements before and after it. -/
structure FirstLeast (rank : ν → Nat) (list front : List ν) (chosen : ν) (back : List ν) :
    Prop where
  split : list = front ++ chosen :: back
  before : ∀ other ∈ front, rank chosen < rank other
  after : ∀ other ∈ back, rank chosen ≤ rank other

theorem FirstLeast.le {rank : ν → Nat} {list front back : List ν} {chosen : ν}
    (first : FirstLeast rank list front chosen back) :
    ∀ element ∈ list, rank chosen ≤ rank element := by
  obtain ⟨rfl, before, after⟩ := first
  intro element member
  rcases List.mem_append.mp member with inFront | inRest
  · exact Nat.le_of_lt (before element inFront)
  · rcases List.mem_cons.mp inRest with rfl | inBack
    · exact Nat.le_refl _
    · exact after element inBack

/-- A list that is not empty has a first element of the least rank. -/
theorem exists_firstLeast (rank : ν → Nat) {list : List ν} (nonempty : list ≠ []) :
    ∃ front chosen back, FirstLeast rank list front chosen back := by
  induction list with
  | nil => exact absurd rfl nonempty
  | cons head rest ih =>
      by_cases least : ∀ other ∈ rest, rank head ≤ rank other
      · exact ⟨[], head, rest, rfl, nofun, least⟩
      · obtain ⟨lower, member, less⟩ : ∃ other ∈ rest, rank other < rank head := by
          simpa using least
        obtain ⟨front, chosen, back, first⟩ := ih (List.ne_nil_of_mem member)
        refine ⟨head :: front, chosen,
          back, by rw [first.split, List.cons_append], ?_, first.after⟩
        exact List.forall_mem_cons.mpr
          ⟨Nat.lt_of_le_of_lt (first.le lower member) less, first.before⟩

/-- A list has a first element with a property, or none. -/
theorem split_or_none (marked : ν → Bool) (list : List ν) :
    (∃ front chosen back, list = front ++ chosen :: back ∧
      (∀ other ∈ front, marked other = true) ∧ marked chosen = false) ∨
      ∀ other ∈ list, marked other = true := by
  induction list with
  | nil => exact .inr nofun
  | cons head rest ih =>
      cases mark : marked head with
      | false => exact .inl ⟨[], head, rest, rfl, nofun, mark⟩
      | true =>
          rcases ih with ⟨front, chosen, back, split, before, here⟩ | all
          · refine .inl ⟨head :: front, chosen,
              back, by rw [split, List.cons_append], ?_, here⟩
            exact List.forall_mem_cons.mpr ⟨mark, before⟩
          · exact .inr (List.forall_mem_cons.mpr ⟨mark, all⟩)

/-- A clock on a ring that is not empty makes its choice. -/
theorem exists_clockChoice (used : ν → Bool) {ring : List ν} (nonempty : ring ≠ []) :
    ∃ victim cleared rest, ClockChoice used ring victim cleared rest := by
  rcases split_or_none used ring with ⟨passed, victim, rest, split, skipped, free⟩ | all
  · exact ⟨victim, passed, _, .unused split skipped free⟩
  · obtain ⟨victim, rest, split⟩ := List.exists_cons_of_ne_nil nonempty
    exact ⟨victim, ring, rest, .wrapped split all⟩

/-- The ring of a list from one of its elements on, by a split of the list. -/
def RingOf (list : List ν) (hand : ν) (ring : List ν) : Prop :=
  ∃ front back, list = front ++ hand :: back ∧ ring = hand :: (back ++ front)

theorem RingOf.head {list ring : List ν} {hand : ν} (isRing : RingOf list hand ring) :
    ∃ rest, ring = hand :: rest := by
  obtain ⟨front, back, _, rfl⟩ := isRing
  exact ⟨back ++ front, rfl⟩

theorem RingOf.perm {list ring : List ν} {hand : ν} (isRing : RingOf list hand ring) :
    ring.Perm list := by
  obtain ⟨front, back, rfl, rfl⟩ := isRing
  exact (List.perm_append_comm.cons hand).trans List.perm_middle.symm

theorem ringOf_ringFrom [DecidableEq ν] {list : List ν} {hand : ν} (member : hand ∈ list) :
    RingOf list hand (ringFrom list hand) := by
  obtain ⟨front, back, rfl, outside⟩ := List.eq_append_cons_of_mem member
  exact ⟨front, back, rfl, ringFrom_append outside⟩

/-- One step around the list: the element behind the hand, or the first one. -/
theorem RingOf.step {list rest : List ν} {hand : ν} (isRing : RingOf list hand (hand :: rest)) :
    ∃ front back next, list = front ++ hand :: back ∧
      (back.head?.or list.head?) = some next ∧ RingOf list next (rest ++ [hand]) := by
  obtain ⟨front, back, split, same⟩ := isRing
  obtain rfl : rest = back ++ front := List.tail_eq_of_cons_eq same
  subst split
  refine ⟨front, back, ?_⟩
  cases back with
  | cons next back =>
      exact ⟨next, rfl, rfl, front ++ [hand], back, by simp, by simp⟩
  | nil =>
      cases front with
      | nil => exact ⟨hand, rfl, rfl, [], [], rfl, rfl⟩
      | cons next front => exact ⟨next, rfl, rfl, [], front ++ [hand], rfl, by simp⟩

end ClockRing
