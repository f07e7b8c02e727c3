import FosKernel.Conc.GuardedObject

/-!
# Sleep locks

`acquire_sleeplock` and `release_sleeplock`, called by any processes, each of
which releases the lock only after it has acquired it.
-/

namespace FosKernel

/-- `acquire_sleeplock`. -/
def acquireSleeplock : List (Statement Int) :=
  [.acquire .lk, .sleepWhile (fun locked => locked = 1), .assign (fun _ => 1), .release .lk]

/-- `release_sleeplock`. -/
def releaseSleeplock : List (Statement Int) :=
  [.acquire .lk, .wakeIfQueued, .assign (fun _ => 0), .release .lk]

namespace SleepLock

/-- The functions of a sleep lock. -/
def body : ObjectEvent → List (Statement Int)
  | .take => acquireSleeplock
  | .give => releaseSleeplock

/-- A sleep lock as an object with a guard. -/
def object : GuardedObject Int where
  test locked := locked = 1
  take _ := 1
  give _ := 0
  giveFirst := false

variable {ν : Type} [DecidableEq ν]

/-- The latest entry of a process is the return of `acquire_sleeplock`: it is between that return
and its release. -/
def Holds (history : List (CallEvent × ν)) (env : ν) : Prop :=
  (history.find? fun entry => entry.2 = env).map Prod.fst = some (.ret .take)

/-- The last call of a process is `acquire_sleeplock`. -/
def Owns (calls : List (ObjectEvent × ν)) (env : ν) : Prop :=
  (calls.find? fun entry => entry.2 = env).map Prod.fst = some .take

/-- A process acquires the lock and then releases it. -/
def alternating (calls : List (ObjectEvent × ν)) (env : ν) : ObjectEvent → Prop
  | .take => ¬ Owns calls env
  | .give => Owns calls env

/-- `locked` is 0 and no process owns the lock, or it is 1 and one process does. -/
def Owned (locked : Int) (calls : List (ObjectEvent × ν)) : Prop :=
  locked = 0 ∧ (∀ env, ¬ Owns calls env) ∨ locked = 1 ∧ ∃ holder, ∀ env,
    Owns calls env ↔ env = holder

theorem owns_cons_self (act : ObjectEvent) (env : ν) (calls : List (ObjectEvent × ν)) :
    Owns ((act, env) :: calls) env ↔ act = .take := by
  simp [Owns]

theorem owns_cons_of_ne {env other : ν} (different : other ≠ env) (act : ObjectEvent)
    (calls : List (ObjectEvent × ν)) : Owns ((act, other) :: calls) env ↔ Owns calls env := by
  simp [Owns, different]

theorem disciplined : object.Disciplined (alternating (ν := ν)) Owned where
  others := by
    intro calls env event allowed other act different
    cases event with
    | take => exact mt (owns_cons_of_ne different act calls).mp allowed
    | give => exact (owns_cons_of_ne different act calls).mpr allowed
  take := by
    intro locked calls env owned free _
    have free : ¬ locked = 1 := of_decide_eq_false free
    obtain ⟨-, nobody⟩ := owned.resolve_right fun taken => free taken.1
    refine .inr ⟨rfl, env, fun other => ?_⟩
    by_cases same : other = env
    · subst same
      simp [owns_cons_self]
    · simp [owns_cons_of_ne (Ne.symm same), nobody, same]
  give := by
    intro locked calls env owned holds
    obtain ⟨-, holder, unique⟩ := owned.resolve_left fun free => free.2 env holds
    obtain rfl := (unique env).mp holds
    refine .inl ⟨rfl, fun other => ?_⟩
    by_cases same : other = env
    · subst same
      simp [owns_cons_self]
    · rw [owns_cons_of_ne (Ne.symm same), unique other]
      exact same

end SleepLock

end FosKernel
