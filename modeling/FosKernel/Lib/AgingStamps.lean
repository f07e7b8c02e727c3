import Mathlib.Algebra.Order.Ring.Nat
import Mathlib.Data.Nat.Bitwise

/-!
# Aging stamps

A stamp is a shift register. At every tick it moves one bit to the right, and a used
bit enters in front. Of two stamps, the smaller one is that of the earlier last use.
-/

namespace FosKernel

/-- The stamp after a tick, in a register of `top + 1` bits. -/
def ageStamp (top : Nat) (used : Bool) (stamp : Nat) : Nat :=
  if used then stamp / 2 ||| 2 ^ top else stamp / 2

/-- The stamp and the used bit of an object whose last use was in a given tick, or that was never
used. -/
structure Aged (top now : Nat) (last : Option Nat) (used : Bool) (stamp : Nat) : Prop where
  bound : stamp < 2 ^ (top + 1)
  current : used = true ↔ last = some now
  never : last = none → stamp = 0
  earlier : ∀ tick, last = some tick → tick ≤ now
  below : ∀ tick, last = some tick → tick < now → stamp < 2 ^ (top + 2 - (now - tick))
  above : ∀ tick, last = some tick → tick < now → now - tick ≤ top + 1 →
    2 ^ (top + 1 - (now - tick)) ≤ stamp

theorem ageStamp_of_used {top stamp : Nat} (bound : stamp < 2 ^ (top + 1)) :
    ageStamp top true stamp = 2 ^ top + stamp / 2 := by
  have half : stamp / 2 < 2 ^ top := by
    rw [pow_succ] at bound
    omega
  rw [ageStamp, if_pos rfl, Nat.lor_comm]
  simpa using (Nat.two_pow_add_eq_or_of_lt half 1).symm

theorem ageStamp_of_unused (top stamp : Nat) : ageStamp top false stamp = stamp / 2 := rfl

namespace Aged

variable {top now stamp stamp' : Nat} {last last' : Option Nat} {used : Bool}

/-- An object that was never used. -/
theorem fresh (top now : Nat) : Aged top now none false 0 where
  bound := Nat.two_pow_pos _
  current := by simp
  never _ := rfl
  earlier _ is := by cases is
  below _ is := by cases is
  above _ is := by cases is

/-- A use, whatever the stamp is. -/
theorem of_use (top now : Nat) (bound : stamp < 2 ^ (top + 1)) :
    Aged top now (some now) true stamp where
  bound := bound
  current := by simp
  never is := by cases is
  earlier tick is := by
    rw [Option.some.injEq] at is
    exact Nat.le_of_eq is.symm
  below tick is less := by
    rw [Option.some.injEq] at is
    exact absurd is.symm (Nat.ne_of_lt less)
  above tick is less := by
    rw [Option.some.injEq] at is
    exact absurd is.symm (Nat.ne_of_lt less)

theorem unused (aged : Aged top now last used stamp) {tick : Nat} (is : last = some tick)
    (less : tick < now) : used = false := by
  rw [← Bool.not_eq_true, aged.current, is, Option.some.injEq]
  exact Nat.ne_of_lt less

theorem ageStamp_lt (aged : Aged top now last used stamp) :
    ageStamp top used stamp < 2 ^ (top + 1) := by
  have bound := aged.bound
  cases used with
  | true =>
      rw [ageStamp_of_used bound]
      rw [pow_succ] at bound ⊢
      omega
  | false =>
      rw [ageStamp_of_unused]
      omega

/-- A tick. -/
theorem tick (aged : Aged top now last used stamp) :
    Aged top (now + 1) last false (ageStamp top used stamp) where
  bound := aged.ageStamp_lt
  current := by
    refine ⟨fun impossible => absurd impossible Bool.false_ne_true, fun is => ?_⟩
    exact absurd (aged.earlier _ is) (Nat.not_succ_le_self now)
  never is := by
    have unused : used = false := by
      rw [← Bool.not_eq_true, aged.current, is]
      exact fun impossible => by cases impossible
    rw [unused, ageStamp_of_unused, aged.never is]
  earlier tick is := Nat.le_succ_of_le (aged.earlier tick is)
  below tick is _ := by
    by_cases here : tick = now
    · have bound := aged.ageStamp_lt
      rwa [here, Nat.add_sub_cancel_left]
    · have less := Nat.lt_of_le_of_ne (aged.earlier tick is) here
      have bound := aged.below tick is less
      rw [aged.unused is less, ageStamp_of_unused]
      by_cases old : now - tick ≤ top + 1
      · rw [show top + 2 - (now - tick) = top + 2 - (now + 1 - tick) + 1 by omega, pow_succ]
          at bound
        omega
      · rw [show top + 2 - (now - tick) = 0 by omega, pow_zero] at bound
        exact Nat.lt_of_le_of_lt (by omega) (Nat.two_pow_pos _)
  above tick is _ recent := by
    by_cases here : tick = now
    · have used : used = true := aged.current.mpr (is.trans (congrArg some here))
      rw [used, ageStamp_of_used aged.bound, here, Nat.add_sub_cancel_left, Nat.add_sub_cancel]
      exact Nat.le_add_right ..
    · have less := Nat.lt_of_le_of_ne (aged.earlier tick is) here
      have bound := aged.above tick is less (by omega)
      rw [aged.unused is less, ageStamp_of_unused]
      rw [show top + 1 - (now - tick) = top + 1 - (now + 1 - tick) + 1 by omega, pow_succ] at bound
      omega

/-- The smaller stamp is that of the earlier last use, as far as the register reaches back. -/
theorem le_of_stamp_le (aged : Aged top now last false stamp)
    (aged' : Aged top now last' false stamp') (le : stamp ≤ stamp') {tick tick' : Nat}
    (is : last = some tick) (is' : last' = some tick') (recent : now - tick' ≤ top + 1) :
    tick ≤ tick' := by
  have past : ∀ {last : Option Nat} {stamp tick : Nat}, Aged top now last false stamp →
      last = some tick → tick < now := by
    intro last stamp tick aged is
    refine Nat.lt_of_le_of_ne (aged.earlier tick is) fun here => ?_
    exact Bool.false_ne_true (aged.current.mpr (is.trans (congrArg some here)))
  by_contra later
  have less := past aged is
  have lower := aged.above tick is less (by omega)
  have upper := aged'.below tick' is' (past aged' is')
  have gap : 2 ^ (top + 2 - (now - tick')) ≤ 2 ^ (top + 1 - (now - tick)) :=
    Nat.pow_le_pow_right Nat.two_pos (by omega)
  omega

end Aged

end FosKernel
