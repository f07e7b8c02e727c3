import Mathlib.Data.Set.Card
import FosKernel.Conc.Multicore

/-!
# The order of the spinlocks

`sleep` acquires `qlock` while its caller holds the spinlock of the object, and when
the process goes on it acquires that spinlock while it holds `qlock`. On one CPU
this is harmless: no process waits for a spinlock, since what the others hold when
they give up the CPU is `qlock` alone. On more CPUs two processes can wait for each
other.
-/

namespace FosKernel

namespace Multicore

variable {κ ν ι : Type}

/-- The spinlock that a CPU has to acquire next. -/
def wants [DecidableEq κ] (machine : Multicore κ ν ι) (cpu : κ) : Option (LockName ι) :=
  match machine.current cpu with
  | none => if machine.holder .qlock = some cpu then none else some .qlock
  | some env =>
      match machine.code env with
      | .acquire lock :: _ => some lock
      | _ => none

/-- A CPU waits for a spinlock that another one, or itself, holds. -/
def Waits [DecidableEq κ] (machine : Multicore κ ν ι) (first second : κ) : Prop :=
  ∃ lock, machine.wants first = some lock ∧ machine.holder lock = some second

/-- A number of CPUs reach no cycle of waits, whatever the processes and objects. -/
def DeadlockFree (cpus : Nat) : Prop :=
  ∀ (ν ι : Type) [DecidableEq ν] [DecidableEq ι] (kind : ι → ObjectKind) (id : ν → Int)
    (data : ι → Int) (machine : Multicore (Fin cpus) ν ι),
    (∀ object, kind object = .sleepLock → data object = 0) → machine.Run kind id data →
      ¬ ∃ cpu, Relation.TransGen machine.Waits cpu cpu

end Multicore

/-- Code that starts with some spinlocks ends with none: it acquires only those that are free and
releases only those it has, and gives up the CPU with `qlock` alone. -/
def Balanced {ι : Type} : Set (LockName ι) → List (Instruction ι) → Prop
  | held, [] => held = ∅
  | held, .acquire lock :: rest => lock ∉ held ∧ Balanced (insert lock held) rest
  | held, .release lock :: rest => lock ∈ held ∧ Balanced (held \ {lock}) rest
  | held, .sleepWhile object _ :: rest => held = {.own object} ∧ Balanced held rest
  | held, .wakeIfQueued _ :: rest => .qlock ∉ held ∧ Balanced held rest
  | held, .sched :: rest => held = {.qlock} ∧ Balanced held rest
  | held, _ :: rest => Balanced held rest

section Code

variable {ι : Type} {held : Set (LockName ι)} {rest : List (Instruction ι)}

/-- The functions of an object start and end without spinlocks. -/
theorem balanced_body (kind : ObjectKind) (object : ι) (event : ObjectEvent) :
    Balanced ∅ (kind.callOn object event) := by
  cases kind <;> cases event <;>
    simp [ObjectKind.callOn, callOn, ObjectKind.body, SleepLock.body, KSemaphore.body,
      acquireSleeplock,
      releaseSleeplock, waitKsemaphore, signalKsemaphore, Statement.on, Spinlock.of, Balanced]

theorem balanced_holdingSleeplock (object : ι) : Balanced ∅ (holdingSleeplock object) := by
  simp [holdingSleeplock, Balanced]

theorem balanced_yield (balanced : Balanced ∅ rest) : Balanced ∅ (yieldCode ++ rest) := by
  simpa [yieldCode, Balanced, Set.sdiff_self] using balanced

/-- `sleep` comes back with the spinlock of the object. -/
theorem balanced_sleep {object : ι} (balanced : Balanced {.own object} rest) :
    Balanced {.own object} (callOn object sleep ++ rest) := by
  have slept : (insert LockName.qlock {LockName.own object} : Set _) \ {.own object} =
      {.qlock} := by
    ext lock
    cases lock <;> simp
  have woken : (insert (LockName.own object) {LockName.qlock} : Set _) \ {.qlock} =
      {.own object} := by
    ext lock
    cases lock <;> simp
  simpa [callOn, sleep, Statement.on, Spinlock.of, Balanced, slept, woken] using balanced

/-- `wakeup_all` leaves the spinlocks as they were. -/
theorem balanced_wakeup {object : ι} (free : .qlock ∉ held) (balanced : Balanced held rest) :
    Balanced held (callOn object wakeupAll ++ rest) := by
  simpa [callOn, wakeupAll, Statement.on, Spinlock.of, Balanced, free,
    Set.insert_sdiff_self_of_notMem free] using balanced

end Code

namespace Multicore

variable {κ ν ι : Type} [DecidableEq κ] [DecidableEq ν] [DecidableEq ι]

/-- The spinlocks of a CPU. -/
def heldBy (machine : Multicore κ ν ι) (cpu : κ) : Set (LockName ι) :=
  {lock | machine.holder lock = some cpu}

/-- `ncli` is the number of spinlocks of the CPU. -/
def Counted (machine : Multicore κ ν ι) (cpu : κ) : Prop :=
  (machine.heldBy cpu).encard = machine.ncli cpu

/-- The code of the process on the only CPU is balanced with the spinlocks of the CPU, and that of
the others with `qlock`, which the scheduler hands over. -/
structure Orderly (machine : Multicore κ ν ι) (cpu : κ) : Prop where
  running : ∀ env, machine.current cpu = some env →
    Balanced (machine.heldBy cpu) (machine.code env)
  parked : ∀ env, machine.current cpu ≠ some env → Balanced {.qlock} (machine.code env)
  idle : machine.current cpu = none → machine.heldBy cpu ⊆ {.qlock}
  counted : machine.Counted cpu

variable {machine next : Multicore κ ν ι} {cpu : κ} {env : ν} {kind : ι → ObjectKind}
  {id : ν → Int} {data : ι → Int}

omit [DecidableEq ν] in
theorem heldBy_lock (machine : Multicore κ ν ι) (cpu : κ) (lock : LockName ι) :
    (machine.lock cpu lock).heldBy cpu = insert lock (machine.heldBy cpu) := by
  ext other
  by_cases same : other = lock <;> simp [heldBy, Multicore.lock, same]

omit [DecidableEq ν] in
theorem heldBy_unlock (machine : Multicore κ ν ι) (cpu : κ) (lock : LockName ι) :
    (machine.unlock cpu lock).heldBy cpu = machine.heldBy cpu \ {lock} := by
  ext other
  by_cases same : other = lock <;> simp [heldBy, Multicore.unlock, same]

omit [DecidableEq ν] in
theorem Counted.lock (counted : machine.Counted cpu) {lock : LockName ι}
    (free : machine.holder lock = none) : (machine.lock cpu lock).Counted cpu := by
  have outside : lock ∉ machine.heldBy cpu := by
    unfold heldBy
    simp [free]
  unfold Counted at *
  rw [heldBy_lock, Set.encard_insert_of_notMem outside, counted]
  simp [Multicore.lock]

omit [DecidableEq ν] in
theorem Counted.unlock (counted : machine.Counted cpu) {lock : LockName ι}
    (held : machine.holder lock = some cpu) : (machine.unlock cpu lock).Counted cpu := by
  have removed := Set.encard_sdiff_singleton_add_one (show lock ∈ machine.heldBy cpu from held)
  unfold Counted at *
  rw [counted] at removed
  have reduced : (machine.unlock cpu lock).ncli cpu = machine.ncli cpu - 1 :=
    Function.update_self ..
  rw [heldBy_unlock, reduced]
  cases count : machine.ncli cpu with
  | zero => simp [count] at removed
  | succ fewer =>
      rw [count, Nat.cast_succ] at removed
      exact WithTop.add_right_cancel ENat.one_ne_top removed

omit [DecidableEq κ] [DecidableEq ι] in
/-- The process of the CPU goes on with other code and other spinlocks. -/
theorem Orderly.advance (orderly : machine.Orderly cpu) (running : machine.current cpu = some env)
    {code : List (Instruction ι)} (same : next.current = machine.current)
    (coded : next.code = Function.update machine.code env code)
    (balanced : Balanced (next.heldBy cpu) code) (counted : next.Counted cpu) :
    next.Orderly cpu where
  counted := counted
  running other now := by
    rw [same] at now
    obtain rfl := Option.some.inj (running.symm.trans now)
    rw [coded, Function.update_self]
    exact balanced
  parked other away := by
    rw [same] at away
    have different : other ≠ env := fun equal => away (equal ▸ running)
    rw [coded, Function.update_of_ne different]
    exact orderly.parked other away
  idle idle := by
    rw [same, running] at idle
    cases idle

omit [DecidableEq κ] [DecidableEq ι] in
/-- A statement that leaves the spinlocks and the CPU alone. -/
theorem Orderly.silent (orderly : machine.Orderly cpu) (running : machine.current cpu = some env)
    {code : List (Instruction ι)} (same : next.current = machine.current)
    (kept : next.holder = machine.holder ∧ next.ncli = machine.ncli)
    (coded : next.code = Function.update machine.code env code)
    (balanced : Balanced (machine.heldBy cpu) code) : next.Orderly cpu := by
  have held : next.heldBy cpu = machine.heldBy cpu := by
    unfold heldBy
    rw [kept.1]
  refine orderly.advance running same coded (held ▸ balanced) ?_
  unfold Counted
  rw [held, kept.2]
  exact orderly.counted

omit [DecidableEq ι] in
/-- The process of the CPU gives it up. -/
theorem Orderly.park (orderly : machine.Orderly cpu) (running : machine.current cpu = some env)
    {code : List (Instruction ι)} (same : next.current = Function.update machine.current cpu none)
    (kept : next.holder = machine.holder ∧ next.ncli = machine.ncli)
    (coded : next.code = Function.update machine.code env code)
    (balanced : Balanced {.qlock} code) (only : machine.heldBy cpu ⊆ {.qlock}) :
    next.Orderly cpu where
  counted := by
    unfold Counted heldBy
    rw [kept.1, kept.2]
    exact orderly.counted
  running other now := by
    rw [same, Function.update_self] at now
    cases now
  parked other _ := by
    by_cases equal : other = env
    · rw [equal, coded, Function.update_self]
      exact balanced
    · rw [coded, Function.update_of_ne equal]
      exact orderly.parked other fun now => equal (Option.some.inj (now.symm.trans running))
  idle _ := by
    unfold heldBy at only ⊢
    rwa [kept.1]

/-- A statement of the only CPU keeps the order. -/
theorem Orderly.exec (orderly : machine.Orderly cpu) (running : machine.current cpu = some env)
    {instruction : Instruction ι} {rest : List (Instruction ι)}
    (code : machine.code env = instruction :: rest)
    (executed : machine.exec id cpu env rest instruction = some next) : next.Orderly cpu := by
  have balanced := orderly.running env running
  rw [code] at balanced
  cases instruction with
  | acquire lock =>
      obtain ⟨free, executed⟩ := Option.ite_none_right_eq_some.mp executed
      obtain rfl := Option.some.inj executed
      refine orderly.advance running rfl rfl ?_ (orderly.counted.lock free)
      change Balanced ((machine.lock cpu lock).heldBy cpu) rest
      rw [heldBy_lock]
      exact balanced.2
  | release lock =>
      obtain ⟨held, executed⟩ := Option.ite_none_right_eq_some.mp executed
      obtain rfl := Option.some.inj executed
      refine orderly.advance running rfl rfl ?_ (orderly.counted.unlock held)
      change Balanced ((machine.unlock cpu lock).heldBy cpu) rest
      rw [heldBy_unlock]
      exact balanced.2
  | sleepWhile object test =>
      obtain rfl := Option.some.inj executed
      refine orderly.silent running rfl ⟨rfl, rfl⟩ rfl ?_
      obtain ⟨own, after⟩ := balanced
      split
      · rw [own] at after ⊢
        exact balanced_sleep ⟨rfl, after⟩
      · exact after
  | assign object value =>
      obtain rfl := Option.some.inj executed
      exact orderly.silent running rfl ⟨rfl, rfl⟩ rfl balanced
  | setReady =>
      obtain rfl := Option.some.inj executed
      exact orderly.silent running rfl ⟨rfl, rfl⟩ rfl balanced
  | setBlocked =>
      obtain rfl := Option.some.inj executed
      exact orderly.silent running rfl ⟨rfl, rfl⟩ rfl balanced
  | enqueue object =>
      obtain rfl := Option.some.inj executed
      exact orderly.silent running rfl ⟨rfl, rfl⟩ rfl balanced
  | sched =>
      obtain ⟨-, executed⟩ := Option.ite_none_right_eq_some.mp executed
      obtain rfl := Option.some.inj executed
      obtain ⟨only, after⟩ := balanced
      rw [only] at after
      exact orderly.park running rfl ⟨rfl, rfl⟩ rfl after (subset_of_eq only)
  | wakeIfQueued object =>
      obtain rfl := Option.some.inj executed
      refine orderly.silent running rfl ⟨rfl, rfl⟩ rfl ?_
      split
      · exact balanced_wakeup balanced.1 balanced.2
      · exact balanced.2
  | wakeQueued object =>
      obtain rfl := Option.some.inj executed
      exact orderly.silent running rfl ⟨rfl, rfl⟩ rfl balanced
  | wakeRounds object count =>
      cases count with
      | zero =>
          obtain rfl := Option.some.inj executed
          exact orderly.silent running rfl ⟨rfl, rfl⟩ rfl balanced
      | succ count =>
          rw [Multicore.exec] at executed
          split at executed
          · cases executed
          · obtain ⟨-, executed⟩ := Option.ite_none_right_eq_some.mp executed
            obtain rfl := Option.some.inj executed
            exact orderly.silent running rfl ⟨rfl, rfl⟩ rfl balanced
  | testHolding object =>
      obtain rfl := Option.some.inj executed
      exact orderly.silent running rfl ⟨rfl, rfl⟩ rfl balanced
  | ret object event =>
      obtain rfl := Option.some.inj executed
      exact orderly.silent running rfl ⟨rfl, rfl⟩ rfl balanced

/-- A step of the only CPU keeps the order. -/
theorem Orderly.step [Subsingleton κ] (orderly : machine.Orderly cpu)
    (step : machine.Step kind id next) : next.Orderly cpu := by
  cases step with
  | @call other env object event running outside =>
      obtain rfl := Subsingleton.elim cpu other
      have balanced := orderly.running env running
      rw [outside] at balanced
      refine orderly.silent running rfl ⟨rfl, rfl⟩ rfl ?_
      rw [show machine.heldBy cpu = ∅ from balanced]
      exact balanced_body (kind object) object event
  | @callHolding other env object _ running outside =>
      obtain rfl := Subsingleton.elim cpu other
      have balanced := orderly.running env running
      rw [outside] at balanced
      refine orderly.silent running rfl ⟨rfl, rfl⟩ rfl ?_
      rw [show machine.heldBy cpu = ∅ from balanced]
      exact balanced_holdingSleeplock object
  | @exec other env instruction rest _ running code executed =>
      obtain rfl := Subsingleton.elim cpu other
      exact orderly.exec running code executed
  | @interrupt other env running enabled _ =>
      obtain rfl := Subsingleton.elim cpu other
      have counted := orderly.counted
      unfold Counted at counted
      rw [enabled] at counted
      have none_ : machine.heldBy cpu = ∅ := Set.encard_eq_zero.mp counted
      have balanced := orderly.running env running
      refine orderly.silent running rfl ⟨rfl, rfl⟩ rfl ?_
      rw [none_] at balanced ⊢
      exact balanced_yield balanced
  | @dispatch other env idle locked ready =>
      obtain rfl := Subsingleton.elim cpu other
      have only : machine.heldBy cpu = {.qlock} :=
        (orderly.idle idle).antisymm (Set.singleton_subset_iff.mpr locked)
      refine ⟨fun entered now => ?_, fun entered _ => ?_, fun gone => ?_, orderly.counted⟩
      · have parked := orderly.parked entered (by rw [idle]; exact nofun)
        exact only ▸ parked
      · exact orderly.parked entered (by rw [idle]; exact nofun)
      · exact orderly.idle idle
  | @idle other idle locked noReady =>
      obtain rfl := Subsingleton.elim cpu other
      refine ⟨fun env now => ?_, orderly.parked, fun _ => ?_, orderly.counted.unlock locked⟩
      · cases idle.symm.trans now
      · rw [heldBy_unlock]
        exact Set.sdiff_subset.trans (orderly.idle idle)
  | @poll other idle free =>
      obtain rfl := Subsingleton.elim cpu other
      refine ⟨fun env now => ?_, orderly.parked, fun _ => ?_, orderly.counted.lock free⟩
      · cases idle.symm.trans now
      · rw [heldBy_lock]
        exact Set.insert_subset rfl (orderly.idle idle)

/-- The only CPU keeps the order from boot on. -/
theorem Orderly.of_run [Subsingleton κ] (run : machine.Run kind id data) (cpu : κ) :
    machine.Orderly cpu := by
  induction run with
  | refl =>
      have empty : (boot data : Multicore κ ν ι).heldBy cpu = ∅ := by
        ext lock
        simp [heldBy, boot]
      refine ⟨nofun, fun env _ => ?_, fun _ => ?_, ?_⟩
      · simp [boot, Balanced]
      · rw [empty]
        exact Set.empty_subset _
      · unfold Counted
        rw [empty, Set.encard_empty]
        rfl
  | tail _ step ih => exact ih.step step

omit [DecidableEq ν] [DecidableEq ι] in
/-- The only CPU never waits for a spinlock. -/
theorem Orderly.not_waits (orderly : machine.Orderly cpu) : ¬ machine.Waits cpu cpu := by
  rintro ⟨lock, wanted, held⟩
  unfold wants at wanted
  cases current : machine.current cpu with
  | none =>
      simp only [current] at wanted
      split at wanted
      · cases wanted
      · rename_i free
        obtain rfl := Option.some.inj wanted
        exact free held
  | some env =>
      have balanced := orderly.running env current
      simp only [current] at wanted
      split at wanted
      · rename_i code
        obtain rfl := Option.some.inj wanted
        rw [code] at balanced
        exact balanced.1 held
      · cases wanted

/-- Two CPUs reach a state in which a process that comes back from `sleep` waits for the spinlock
of a semaphore, which one that enters `sleep` holds, and that one waits for `qlock`. -/
theorem cycle_of_two {cpus : Nat} (more : 2 ≤ cpus) :
    ∃ machine : Multicore (Fin cpus) Bool Unit,
      machine.Run (fun _ => .semaphore) (fun _ => 1) (fun _ => 0) ∧
        machine.Waits ⟨0, by omega⟩ ⟨1, by omega⟩ ∧
            machine.Waits ⟨1, by omega⟩ ⟨0, by omega⟩ := by
  let first : Fin cpus := ⟨0, by omega⟩
  let second : Fin cpus := ⟨1, by omega⟩
  have boots : (boot (fun _ => 0) : Multicore (Fin cpus) Bool Unit).Run (fun _ => .semaphore)
      (fun _ => 1) (fun _ => 0) := .refl
  have started := (boots.schedule first false rfl rfl rfl).exec first rfl rfl rfl
  have both := (started.schedule second true rfl rfl rfl).exec second rfl rfl rfl
  -- The first process sleeps on the semaphore.
  have tested := ((both.call first () .take rfl rfl).exec first rfl rfl rfl).exec first rfl rfl rfl
  have blocked := ((tested.exec first rfl rfl rfl).exec first rfl rfl rfl).exec first rfl rfl rfl
  have left := (blocked.exec first rfl rfl rfl).exec first rfl rfl rfl
  have asleep := left.unschedule first rfl rfl fun | true | false => nofun
  -- The second one signals and waits twice; the second wait is about to sleep.
  have signals := ((asleep.call second () .give rfl rfl).exec second rfl rfl rfl).exec second
    rfl rfl rfl
  have wakes := ((signals.exec second rfl rfl rfl).exec second rfl rfl rfl).exec second rfl rfl rfl
  have woken := (wakes.exec second rfl rfl rfl).exec second rfl rfl rfl
  have signalled := ((woken.exec second rfl rfl rfl).exec second rfl rfl rfl).exec
    second rfl rfl rfl
  have waits := ((signalled.call second () .take rfl rfl).exec second rfl rfl rfl).exec second
    rfl rfl rfl
  have waited := ((waits.exec second rfl rfl rfl).exec second rfl rfl rfl).exec second rfl rfl rfl
  have sleeps := ((waited.call second () .take rfl rfl).exec second rfl rfl rfl).exec second
    rfl rfl rfl
  have resumed := sleeps.schedule first false rfl rfl rfl
  exact ⟨_, resumed, ⟨.own (), rfl, rfl⟩, ⟨.qlock, rfl, rfl⟩⟩

/-- Two CPUs reach a deadlock. -/
theorem not_deadlockFree {cpus : Nat} (more : 2 ≤ cpus) : ¬ DeadlockFree cpus := by
  intro free
  obtain ⟨machine, run, forth, back⟩ := cycle_of_two more
  exact free Bool Unit (fun _ => .semaphore) _ _ machine (fun _ => nofun) run
    ⟨_, .tail (.single forth) back⟩

/-- The order of the spinlocks excludes deadlocks on one CPU, and on no larger number. -/
theorem deadlockFree_iff (cpus : Nat) : DeadlockFree cpus ↔ cpus ≤ 1 := by
  constructor
  · intro free
    by_contra more
    exact not_deadlockFree (Nat.not_le.mp more) free
  · rintro single ν ι _ _ kind id data machine - run ⟨cpu, cycle⟩
    have : Subsingleton (Fin cpus) := Fin.subsingleton_iff_le_one.mpr single
    obtain ⟨last, -, wait⟩ := Relation.TransGen.tail'_iff.mp cycle
    obtain rfl := Subsingleton.elim cpu last
    exact (Orderly.of_run run cpu).not_waits wait

/-- Two CPUs are not free of deadlocks. -/
theorem not_deadlockFree_two : ¬ DeadlockFree 2 := not_deadlockFree (Nat.le_refl 2)

end Multicore

end FosKernel
