import Mathlib.Data.List.Count
import FosKernel.Conc.GuardedObject

/-!
# Kernel semaphores

`wait_ksemaphore` and `signal_ksemaphore`, called by any processes at any time.
The count is an integer that does not overflow.
-/

namespace FosKernel

/-- `wait_ksemaphore`. -/
def waitKsemaphore : List (Statement Int) :=
  [.acquire .lk, .sleepWhile (fun count => count ≤ 0), .assign (fun count => count - 1),
    .release .lk]

/-- `signal_ksemaphore`. -/
def signalKsemaphore : List (Statement Int) :=
  [.acquire .lk, .assign (fun count => count + 1), .wakeIfQueued, .release .lk]

namespace KSemaphore

/-- The functions of a semaphore. -/
def body : ObjectEvent → List (Statement Int)
  | .take => waitKsemaphore
  | .give => signalKsemaphore

/-- A semaphore as an object with a guard. -/
def object : GuardedObject Int where
  test count := count ≤ 0
  take count := count - 1
  give count := count + 1
  giveFirst := true

variable {ν : Type}

/-- How many of the calls are waits, or signals. -/
def performed (event : ObjectEvent) (calls : List (ObjectEvent × ν)) : Nat :=
  calls.countP fun entry => entry.1 = event

/-- The count is what the waits have left of the initial value and the signals. -/
def Counted (initial count : Int) (calls : List (ObjectEvent × ν)) : Prop :=
  count = initial + performed .give calls - performed .take calls ∧ 0 ≤ count

theorem performed_cons (event act : ObjectEvent) (env : ν) (calls : List (ObjectEvent × ν)) :
    performed event ((act, env) :: calls) = performed event calls + if act = event then 1 else
        0 := by
  simp [performed, List.countP_cons]

/-- Every process may call both functions at any time. -/
def anyTime (_ : List (ObjectEvent × ν)) (_ : ν) (_ : ObjectEvent) : Prop := True

theorem disciplined (initial : Int) :
    object.Disciplined (anyTime (ν := ν)) (Counted initial) where
  others _ _ _ _ := trivial
  take := by
    intro count calls env counted positive _
    obtain ⟨value, _⟩ := counted
    have positive : ¬ count ≤ 0 := of_decide_eq_false positive
    simp only [Counted, object, performed_cons, reduceCtorEq, if_true, if_false]
    omega
  give := by
    intro count calls env counted _
    obtain ⟨value, nonneg⟩ := counted
    simp only [Counted, object, performed_cons, reduceCtorEq, if_true, if_false]
    omega

variable [DecidableEq ν]

end KSemaphore

end FosKernel
