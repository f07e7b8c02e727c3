import FosKernel.Conc.Multicore

/-!
# Who holds a sleep lock

`holding_sleeplock` compares `pid` with the process that asks. `init_sleeplock`
stores 0 in `pid`, which is no process, and neither `acquire_sleeplock` nor
`release_sleeplock` assigns it, so the answer is always no.
-/

namespace FosKernel

namespace Multicore

variable {κ ν ι : Type} [DecidableEq κ] [DecidableEq ν] [DecidableEq ι]

/-- The calls on an object that have returned. -/
def eventsOf (object : ι) (log : List (LogEntry ι ν)) : List (ObjectEvent × ν) :=
  log.filterMap fun entry =>
    match entry.event with
    | .ret event => if entry.object = object then some (event, entry.env) else none
    | .result _ => none

/-- A process has acquired a sleep lock and not yet released it: `acquire_sleeplock` is the last of
its calls on the lock that have returned. -/
def Acquired (log : List (LogEntry ι ν)) (object : ι) (env : ν) : Prop :=
  SleepLock.Owns (eventsOf object log) env

/-- Every result of `holding_sleeplock` is whether the process that asks holds the lock. -/
def Accurate (log : List (LogEntry ι ν)) : Prop :=
  ∀ earlier object env holds, ⟨object, env, .result holds⟩ :: earlier <:+ log →
    (holds = true ↔ Acquired earlier object env)

/-- Processes ask only about locks that they do not hold. -/
def AskedByOthers (log : List (LogEntry ι ν)) : Prop :=
  ∀ earlier object env holds, ⟨object, env, .result holds⟩ :: earlier <:+ log →
    ¬ Acquired earlier object env

/-- The fields `pid` are those of new locks, and all results have been no. -/
structure Denies (machine : Multicore κ ν ι) : Prop where
  pid : ∀ object, machine.pid object = 0
  results : ∀ entry ∈ machine.log, ∀ holds, entry.event = .result holds → holds = false

variable {machine next : Multicore κ ν ι} {kind : ι → ObjectKind} {id : ν → Int}
  {data : ι → Int}

/-- A statement assigns no `pid`, and logs at most one event, which is the result that
`holding_sleeplock` finds if it is a result. -/
theorem exec_log {cpu : κ} {env : ν} {rest : List (Instruction ι)} {instruction : Instruction ι}
    (executed : machine.exec id cpu env rest instruction = some next) :
    next.pid = machine.pid ∧
      (next.log = machine.log ∨ ∃ entry, next.log = entry :: machine.log ∧
        ∀ holds, entry.event = .result holds →
          holds = machine.holdsFor id entry.object entry.env) := by
  cases instruction with
  | ret object event =>
      obtain rfl := Option.some.inj executed
      exact ⟨rfl, .inr ⟨_, rfl, fun holds same => by cases same⟩⟩
  | testHolding object =>
      obtain rfl := Option.some.inj executed
      exact ⟨rfl, .inr ⟨_, rfl, fun holds same => (LockEvent.result.inj same).symm⟩⟩
  | acquire lock | release lock | sched =>
      obtain ⟨-, executed⟩ := Option.ite_none_right_eq_some.mp executed
      obtain rfl := Option.some.inj executed
      exact ⟨rfl, .inl rfl⟩
  | wakeRounds object count =>
      cases count with
      | zero =>
          obtain rfl := Option.some.inj executed
          exact ⟨rfl, .inl rfl⟩
      | succ count =>
          rw [Multicore.exec] at executed
          split at executed
          · cases executed
          · obtain ⟨-, executed⟩ := Option.ite_none_right_eq_some.mp executed
            obtain rfl := Option.some.inj executed
            exact ⟨rfl, .inl rfl⟩
  | _ =>
      obtain rfl := Option.some.inj executed
      exact ⟨rfl, .inl rfl⟩

omit [DecidableEq κ] [DecidableEq ν] [DecidableEq ι] in
/-- A process whose number is not 0 is never told that it holds a lock. -/
theorem Denies.holdsFor (denies : machine.Denies) (positive : ∀ env, 0 < id env) (object : ι)
    (env : ν) : machine.holdsFor id object env = false := by
  have different : machine.pid object ≠ id env := by
    rw [denies.pid object]
    exact Int.ne_of_lt (positive env)
  simp [Multicore.holdsFor, different]

/-- A step leaves `pid` alone and gives no other result. -/
theorem Denies.step (denies : machine.Denies) (positive : ∀ env, 0 < id env)
    (step : machine.Step kind id next) : next.Denies := by
  cases step with
  | exec _ _ executed =>
      obtain ⟨pid, log⟩ := exec_log executed
      refine ⟨fun object => (congrFun pid object).trans (denies.pid object), ?_⟩
      obtain same | ⟨latest, grown, answer⟩ := log
      · rw [same]
        exact denies.results
      · rw [grown]
        intro entry member holds result
        obtain rfl | member := List.mem_cons.mp member
        · exact (answer holds result).trans (denies.holdsFor positive ..)
        · exact denies.results entry member holds result
  | _ => exact ⟨denies.pid, denies.results⟩

theorem Denies.of_run (positive : ∀ env, 0 < id env) (run : machine.Run kind id data) :
    machine.Denies := by
  induction run with
  | refl => exact ⟨fun _ => rfl, nofun⟩
  | tail _ step ih => exact ih.step positive step

/-- In every order of the steps of any processes, the results of `holding_sleeplock` are accurate
when processes ask only about locks that they do not hold, and not otherwise. -/
theorem accurate_iff (positive : ∀ env, 0 < id env) (run : machine.Run kind id data) :
    Accurate machine.log ↔ AskedByOthers machine.log := by
  have denies := Denies.of_run positive run
  have answer : ∀ earlier object env holds,
      ⟨object, env, .result holds⟩ :: earlier <:+ machine.log → holds = false :=
    fun earlier object env holds suffix =>
      denies.results _ (suffix.subset List.mem_cons_self) holds rfl
  constructor
  · intro accurate earlier object env holds suffix acquired
    have yes := (accurate earlier object env holds suffix).mpr acquired
    cases yes.symm.trans (answer earlier object env holds suffix)
  · intro others earlier object env holds suffix
    rw [answer earlier object env holds suffix]
    exact iff_of_false nofun (others earlier object env holds suffix)

/-- A process asks about a lock that another one holds. -/
theorem accurate_of_stranger : ∃ machine : Multicore Unit Bool Unit,
    machine.Run (fun _ => .sleepLock) (fun _ => 1) (fun _ => 0) ∧
      Acquired machine.log () false ∧
        machine.log = [⟨(), true, .result false⟩, ⟨(), false, .ret .take⟩] ∧
          Accurate machine.log := by
  have boots : (boot (fun _ => 0) : Multicore Unit Bool Unit).Run (fun _ => .sleepLock)
      (fun _ => 1) (fun _ => 0) := .refl
  have started := (boots.schedule () false rfl rfl rfl).exec () rfl rfl rfl
  have enters := (started.call () () .take rfl rfl).exec () rfl rfl rfl
  have takes := ((enters.exec () rfl rfl rfl).exec () rfl rfl rfl).exec () rfl rfl rfl
  have acquired := takes.exec () rfl rfl rfl
  have current := acquired.tail (.interrupt (rfl : Multicore.current _ () = some false) rfl nofun)
  have yields := Run.exec current () rfl rfl rfl
  have parked := (yields.exec () rfl rfl rfl).exec () rfl rfl rfl
  have switched := parked.tail (.dispatch (rfl : Multicore.current _ () = none) rfl
    (rfl : Multicore.status _ true = .ready))
  have other := Run.exec switched () rfl rfl rfl
  have asked := (other.callHolding () () rfl rfl rfl).exec () rfl rfl rfl
  have answered := asked.exec () rfl rfl rfl
  refine ⟨_, answered, rfl, rfl, (accurate_iff (fun _ => Int.one_pos) answered).mpr ?_⟩
  intro earlier object env holds suffix
  obtain same | later := List.suffix_cons_iff.mp suffix
  · obtain ⟨entry, rfl⟩ := List.cons.inj same
    cases entry
    exact nofun
  · obtain same | none_ := List.suffix_cons_iff.mp later
    · cases (List.cons.inj same).1
    · cases List.suffix_nil.mp none_

/-- A process that has acquired a lock is told that it does not hold it. -/
theorem not_accurate_holder : ∃ machine : Multicore Unit Unit Unit,
    machine.Run (fun _ => .sleepLock) (fun _ => 1) (fun _ => 0) ∧ ¬ Accurate machine.log := by
  have boots : (boot (fun _ => 0) : Multicore Unit Unit Unit).Run (fun _ => .sleepLock)
      (fun _ => 1) (fun _ => 0) := .refl
  have started := (boots.schedule () () rfl rfl rfl).exec () rfl rfl rfl
  have enters := (started.call () () .take rfl rfl).exec () rfl rfl rfl
  have takes := ((enters.exec () rfl rfl rfl).exec () rfl rfl rfl).exec () rfl rfl rfl
  have acquired := takes.exec () rfl rfl rfl
  have asked := (acquired.callHolding () () rfl rfl rfl).exec () rfl rfl rfl
  have answered := asked.exec () rfl rfl rfl
  refine ⟨_, answered, fun accurate => ?_⟩
  have answer := accurate [⟨(), (), .ret .take⟩] () () false (List.suffix_refl _)
  cases answer.mpr rfl

end Multicore

end FosKernel
