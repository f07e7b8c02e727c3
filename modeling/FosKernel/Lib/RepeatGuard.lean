import Mathlib.Data.List.Basic
import Mathlib.Data.List.Infix

/-!
# Successive repetitions

A guard that remembers the last event of a history and how often it was repeated
without another event between. It trips at a given number of repetitions, which is
where the history has that many occurrences and one more of an event in a row.
-/

namespace FosKernel

/-- The last event, if there was one, and how often it was repeated. -/
structure RepeatGuard (α : Type) where
  last : Option α
  repetitions : Nat
  deriving DecidableEq, Repr

namespace RepeatGuard

variable {α : Type}

/-- An event occurs the given number of times in a row. -/
def Successive (count : Nat) (history : List α) : Prop :=
  ∃ event, List.replicate count event <:+: history

theorem not_successive_nil (count : Nat) : ¬ Successive (count + 1) ([] : List α) := by
  rintro ⟨event, row⟩
  rw [List.replicate_succ, List.infix_nil] at row
  cases row

variable [DecidableEq α]

/-- Note an event. -/
def note (guard : RepeatGuard α) (event : α) : RepeatGuard α where
  last := some event
  repetitions := if guard.last = some event then guard.repetitions + 1 else 0

/-- The event is the repetition of the given number. -/
def Trips (guard : RepeatGuard α) (limit : Nat) (event : α) : Prop :=
  guard.last = some event ∧ guard.repetitions + 1 = limit

/-- How many of the latest events of a history are the given one. The latest event is the first. -/
def leading (event : α) (history : List α) : Nat :=
  (history.takeWhile (· = event)).length

/-- The guard has noted a history. -/
def Noted (guard : RepeatGuard α) (history : List α) : Prop :=
  ∀ event, leading event history = if guard.last = some event then guard.repetitions + 1 else 0

variable {guard : RepeatGuard α} {history : List α} {event : α} {limit : Nat}

theorem leading_cons_self (event : α) (history : List α) :
    leading event (event :: history) = leading event history + 1 := by
  unfold leading
  rw [List.takeWhile_cons_of_pos (by simp), List.length_cons]

theorem leading_cons_of_ne {other : α} (different : other ≠ event) (history : List α) :
    leading event (other :: history) = 0 := by
  unfold leading
  rw [List.takeWhile_cons_of_neg (by simpa using different), List.length_nil]

/-- The latest events that are equal form a row. -/
theorem replicate_prefix_iff (count : Nat) : ∀ history : List α,
    List.replicate count event <+: history ↔ count ≤ leading event history := by
  induction count with
  | zero => exact fun history => ⟨fun _ => Nat.zero_le _, fun _ => List.nil_prefix⟩
  | succ count ih =>
      intro history
      cases history with
      | nil => simp [leading, List.replicate_succ]
      | cons other rest =>
          rw [List.replicate_succ, List.cons_prefix_cons]
          by_cases same : event = other
          · subst same
            rw [leading_cons_self, Nat.succ_le_succ_iff, ih rest, and_iff_right rfl]
          · rw [leading_cons_of_ne (Ne.symm same)]
            exact ⟨fun both => absurd both.1 same,
              fun less => absurd less (Nat.not_succ_le_zero _)⟩

/-- A row is older than the latest event, or it ends with it. -/
theorem successive_cons_iff (event : α) (history : List α) :
    Successive (limit + 1) (event :: history) ↔
      limit ≤ leading event history ∨ Successive (limit + 1) history := by
  constructor
  · intro ⟨repeated, row⟩
    rcases List.infix_cons_iff.mp row with first | rest
    · rw [List.replicate_succ, List.cons_prefix_cons, replicate_prefix_iff] at first
      obtain ⟨rfl, least⟩ := first
      exact .inl least
    · exact .inr ⟨repeated, rest⟩
  · intro row
    rcases row with least | ⟨repeated, rest⟩
    · refine ⟨event, List.infix_cons_iff.mpr (.inl ?_)⟩
      rw [List.replicate_succ, List.cons_prefix_cons, replicate_prefix_iff]
      exact ⟨rfl, least⟩
    · exact ⟨repeated, List.infix_cons_iff.mpr (.inr rest)⟩

/-- A guard without a last event has noted the empty history. -/
theorem noted_nil (unset : guard.last = none) : guard.Noted [] := by
  intro event
  rw [unset, if_neg (Option.some_ne_none event).symm]
  rfl

theorem Noted.note (noted : guard.Noted history) (event : α) :
    (guard.note event).Noted (event :: history) := by
  intro other
  by_cases same : event = other
  · subst same
    rw [leading_cons_self, noted event, RepeatGuard.note, if_pos rfl]
  · rw [leading_cons_of_ne same, RepeatGuard.note,
      if_neg fun equal => same (Option.some.inj equal)]

/-- While no event has occurred more often in a row than the limit, the guard trips at the event
with which one does. -/
theorem Noted.trips_iff (noted : guard.Noted history) (positive : 0 < limit)
    (calm : ¬ Successive (limit + 1) history) :
    guard.Trips limit event ↔ Successive (limit + 1) (event :: history) := by
  have bound : leading event history ≤ limit := by
    by_contra more
    have row : List.replicate (limit + 1) event <+: history :=
      (replicate_prefix_iff _ history).mpr (Nat.lt_of_not_le more)
    exact calm ⟨event, row.isInfix⟩
  rw [successive_cons_iff, or_iff_left calm]
  have counted := noted event
  unfold Trips
  by_cases same : guard.last = some event
  · rw [if_pos same] at counted
    rw [and_iff_right same, ← counted]
    exact ⟨fun equal => Nat.le_of_eq equal.symm, fun least => Nat.le_antisymm bound least⟩
  · rw [if_neg same] at counted
    rw [counted]
    exact ⟨fun trips => absurd trips.1 same,
      fun least => absurd least (Nat.not_le.mpr positive)⟩

end RepeatGuard

end FosKernel
