import Mathlib.Data.List.Rotate
import Mathlib.Logic.Function.Basic

/-!
# Round robin over levels

Queues of waiting elements, one a level, each in the order of service. A turn puts the
running element last in the queue of its level and serves the first element of the
lowest level that is not empty. As long as nothing else changes, that level rotates.
-/

universe u

namespace RoundRobin

variable {α : Type u} {level : α → Nat} {levels best count : Nat}
  {queues after : Nat → List α}
  {running next : Option α} {ring : List α}

/-- The queues with the running element, if there is one, last in the queue of its level. -/
def requeue (level : α → Nat) (running : Option α) (queues : Nat → List α) :
    Nat → List α :=
  match running with
  | none => queues
  | some a => Function.update queues (level a) (queues (level a) ++ [a])

theorem requeue_some (level : α → Nat) (a : α) (queues : Nat → List α) :
    requeue level (some a) queues =
      Function.update queues (level a) (queues (level a) ++ [a]) :=
  rfl

/-- The first element of the lowest level that is not empty leaves the queues, if there is one. -/
inductive Served (levels : Nat) (queues : Nat → List α) :
    Option α → (Nat → List α) → Prop
  | first {chosen : Nat} {a : α} {rest : List α} (below : chosen < levels)
      (lower : ∀ lower < chosen, queues lower = []) (split : queues chosen = a :: rest) :
      Served levels queues (some a) (Function.update queues chosen rest)
  | none (empty : ∀ chosen < levels, queues chosen = []) : Served levels queues none queues

/-- The elements of the lowest level that is not empty. -/
structure Best (levels : Nat) (queues : Nat → List α) (best : Nat) (ring : List α) : Prop where
  below : best < levels
  lower : ∀ lower < best, queues lower = []
  here : queues best = ring
  nonempty : ring ≠ []

/-- The lowest level that is not empty is the one that is served. -/
theorem Best.served (found : Best levels queues best ring)
    (served : Served levels queues next after) :
    ∃ a rest, ring = a :: rest ∧ next = some a ∧
        after = Function.update queues best rest := by
  cases served with
  | @first chosen a rest below lower split =>
      have least : best ≤ chosen := by
        by_contra less
        rw [found.lower chosen (Nat.lt_of_not_le less)] at split
        cases split
      have most : chosen ≤ best := by
        by_contra less
        exact found.nonempty (found.here.symm.trans (lower best (Nat.lt_of_not_le less)))
      obtain rfl := Nat.le_antisymm least most
      exact ⟨a, rest, found.here.symm.trans split, rfl, rfl⟩
  | none empty => exact absurd (found.here.symm.trans (empty best found.below)) found.nonempty

/-- A level stays the lowest one that is not empty while its elements rotate. -/
theorem Best.rotate (found : Best levels queues best ring) (count : Nat) :
    Best levels (Function.update queues best (ring.rotate count)) best (ring.rotate count) where
  below := found.below
  lower lower less := by
    rw [Function.update_of_ne (Nat.ne_of_lt less)]
    exact found.lower lower less
  here := Function.update_self ..
  nonempty empty := found.nonempty (List.rotate_eq_nil_iff.mp empty)

/-- **One turn.** The first element of the rotating level is served, and the level has rotated
once more when that element is put back. -/
theorem Best.turn (found : Best levels queues best ring) (leveled : ∀ a ∈ ring, level a = best)
    {waiting : Nat → List α} (rotated : waiting =
      Function.update queues best (ring.rotate count))
    (served : Served levels waiting next after) :
    (ring.rotate count).head? = next ∧
      requeue level next after = Function.update queues best (ring.rotate (count + 1)) := by
  rw [rotated] at served
  obtain ⟨a, rest, split, rfl, rfl⟩ := (found.rotate count).served served
  have here : level a = best := leveled a (List.mem_rotate.mp (by rw [split]; simp))
  refine ⟨by rw [split]; rfl, ?_⟩
  rw [requeue_some, here]
  simp only [Function.update_idem, Function.update_self]
  rw [← List.rotate_rotate, split, List.rotate_cons_succ, List.rotate_zero]

/-- The next elements of a rotation. -/
theorem take_rotate_succ (ring : List α) (start : Nat) {count : Nat} (less : count < ring.length) :
    (ring.rotate start).take (count + 1) =
      (ring.rotate start).take count ++ (ring.rotate (start + count)).head?.toList := by
  have length : count < (ring.rotate start).length := by rwa [List.length_rotate]
  rw [← List.rotate_rotate, List.head?_rotate length, List.take_add_one]

end RoundRobin
