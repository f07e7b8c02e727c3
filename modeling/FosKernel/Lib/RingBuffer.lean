import Mathlib.Data.List.Basic
import Mathlib.Logic.Function.Basic

/-!
# Ring buffers

A buffer with a read and a write position that run around it. Equal positions mean that it
is empty, so it holds a queue that is shorter than its capacity.
-/

namespace FosKernel

universe u

/-- The cells and the two positions. -/
structure RingBuffer (ε : Type u) where
  buf : Nat → ε
  rpos : Nat
  wpos : Nat

namespace RingBuffer

variable {ε : Type u}

/-- The position after another one. -/
def advance (capacity position : Nat) : Nat :=
  if position + 1 = capacity then 0 else position + 1

/-- The position a number of places after another one, at most one round further. -/
def place (capacity position offset : Nat) : Nat :=
  if position + offset < capacity then position + offset else position + offset - capacity

/-- Write an entry. -/
def put (capacity : Nat) (ring : RingBuffer ε) (entry : ε) : RingBuffer ε :=
  { ring with
    buf := Function.update ring.buf ring.wpos entry
    wpos := advance capacity ring.wpos }

/-- Read an entry, if there is one. -/
def get (capacity : Nat) (ring : RingBuffer ε) : Option (ε × RingBuffer ε) :=
  if ring.rpos ≠ ring.wpos then
    some (ring.buf ring.rpos, { ring with rpos := advance capacity ring.rpos })
  else none

/-- The entries from the read to the write position are the queue. -/
structure Holds (capacity : Nat) (ring : RingBuffer ε) (queue : List ε) : Prop where
  inside : ring.rpos < capacity
  short : queue.length < capacity
  write : ring.wpos = place capacity ring.rpos queue.length
  entries : ∀ offset < queue.length,
    queue[offset]? = some (ring.buf (place capacity ring.rpos offset))

variable {capacity position offset : Nat} {ring : RingBuffer ε} {queue : List ε} {entry : ε}

theorem place_lt (inside : position < capacity) (short : offset < capacity) :
    place capacity position offset < capacity := by
  unfold place
  split <;> omega

theorem place_zero (inside : position < capacity) : place capacity position 0 = position := by
  unfold place
  split <;> omega

theorem place_succ (inside : position < capacity) (short : offset < capacity) :
    place capacity position (offset + 1) = advance capacity (place capacity position offset) := by
  unfold place advance
  split <;> split <;> split <;> omega

theorem place_advance (short : offset < capacity) :
    place capacity (advance capacity position) offset = place capacity position (offset + 1) := by
  unfold place advance
  split <;> split <;> split <;> omega

/-- Within one round, different offsets lead to different places. -/
theorem place_inj {offset' : Nat} (short : offset < capacity) (short' : offset' < capacity)
    (same : place capacity position offset = place capacity position offset') :
    offset = offset' := by
  unfold place at same
  split at same <;> split at same <;> omega

theorem Holds.write_lt (holds : ring.Holds capacity queue) : ring.wpos < capacity := by
  rw [holds.write]
  exact place_lt holds.inside holds.short

/-- An entry that fits is put at the end of the queue. -/
theorem Holds.put (holds : ring.Holds capacity queue) (room : queue.length + 1 < capacity)
    (entry : ε) : (ring.put capacity entry).Holds capacity (queue ++ [entry]) where
  inside := holds.inside
  short := by rwa [List.length_append]
  write := by
    rw [List.length_append, List.length_singleton]
    exact (congrArg _ holds.write).trans (place_succ holds.inside holds.short).symm
  entries offset within := by
    rw [List.length_append, List.length_singleton] at within
    change _ = some (Function.update ring.buf ring.wpos entry (place capacity ring.rpos offset))
    by_cases last : offset = queue.length
    · subst last
      rw [List.getElem?_concat_length, ← holds.write, Function.update_self]
    · have old : offset < queue.length := by omega
      have different : place capacity ring.rpos offset ≠ ring.wpos := by
        rw [holds.write]
        exact fun same => last (place_inj (by omega) holds.short same)
      rw [List.getElem?_append_left old, Function.update_of_ne different]
      exact holds.entries offset old

/-- Nothing is read from an empty queue. -/
theorem Holds.get_nil (holds : ring.Holds capacity []) : ring.get capacity = none := by
  have same : ring.wpos = ring.rpos := holds.write.trans (place_zero holds.inside)
  rw [RingBuffer.get, if_neg fun different => different same.symm]

/-- The first entry is read. -/
theorem Holds.get_cons (holds : ring.Holds capacity (entry :: queue)) :
    ∃ rest, ring.get capacity = some (entry, rest) ∧ rest.Holds capacity queue := by
  have short := holds.short
  rw [List.length_cons] at short
  have different : ring.rpos ≠ ring.wpos := by
    rw [holds.write]
    intro same
    have empty := place_inj (by omega) holds.short
      ((place_zero holds.inside).trans same)
    cases empty
  have first := holds.entries 0 (by simp)
  rw [place_zero holds.inside, List.getElem?_cons_zero, Option.some.injEq] at first
  refine ⟨{ ring with rpos := advance capacity ring.rpos }, ?_, ?_, by omega, ?_,
    fun offset within => ?_⟩
  · rw [RingBuffer.get, if_pos different, ← first]
  · have short : 0 < capacity := by omega
    have step := place_succ holds.inside short
    rw [place_zero holds.inside] at step
    exact step ▸ place_lt holds.inside (by omega)
  · exact holds.write.trans (place_advance (by omega)).symm
  · have shifted := holds.entries (offset + 1) (by rw [List.length_cons]; omega)
    rw [List.getElem?_cons_succ] at shifted
    rw [shifted, place_advance (by omega)]

end RingBuffer

end FosKernel
