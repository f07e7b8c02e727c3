import FosKernel.Cpu.SchedRuns

/-!
# Promotion by starvation

The counter `nTicks` starts at zero when `sched_insert_ready` makes an environment
ready. The dispatcher puts the process that leaves the CPU back into its ready queue
without that function, so that the counter goes on from the value of an earlier wait.
-/

namespace FosKernel

/-- The scheduler with the ticks that every environment has stayed ready for. -/
structure SchedHistory (sizeofEnv : Nat) where
  machine : SchedMachine sizeofEnv
  waited : Nat → Nat

namespace SchedHistory

open Scheduler

variable {sizeofEnv : Nat} {history next : SchedHistory sizeofEnv} {env : Nat}

/-- The wait of an environment goes on over a call when it is ready before and after it. -/
def record (history : SchedHistory sizeofEnv) (call : SchedCall)
    (after : SchedMachine sizeofEnv) : SchedHistory sizeofEnv where
  machine := after
  waited env :=
    if (history.machine.sched.envs env).envStatus = .ready ∧
        (after.sched.envs env).envStatus = .ready then
      history.waited env + call.ticks
    else 0

/-- Nobody waits at boot. -/
def boot (sizeofEnv : Nat) : SchedHistory sizeofEnv := ⟨.boot sizeofEnv, fun _ => 0⟩

/-- A call that is allowed is recorded. -/
def Step (Allowed : SchedMachine sizeofEnv → SchedCall → Prop)
    (before after : SchedHistory sizeofEnv) : Prop :=
  ∃ call machine, before.machine.Enabled call ∧ Allowed before.machine call ∧
    before.machine.perform call = .ok machine ∧ after = before.record call machine

/-- A recorded run from boot. -/
def Run (Allowed : SchedMachine sizeofEnv → SchedCall → Prop) :
    SchedHistory sizeofEnv → Prop :=
  Relation.ReflTransGen (Step Allowed) (boot sizeofEnv)

/-- A process that leaves the CPU and stays ready has counted no ticks. -/
def LeavesFresh (machine : SchedMachine sizeofEnv) (call : SchedCall) : Prop :=
  call.leaves = true → ∀ env ∈ machine.sched.proc, (machine.sched.envs env).nTicks = 0

theorem run_machine {Allowed : SchedMachine sizeofEnv → SchedCall → Prop}
    (run : Run Allowed history) : SchedMachine.Run Allowed history.machine := by
  induction run with
  | refl => exact .refl
  | tail _ step ih =>
      obtain ⟨call, machine, enabled, allowed, performed, rfl⟩ := step
      exact .tail ih ⟨call, enabled, allowed, performed⟩

/-- No environment has counted more ticks than it has waited. -/
def Counted (history : SchedHistory sizeofEnv) : Prop :=
  ∀ env, (history.machine.sched.envs env).envStatus = .ready →
    (history.machine.sched.envs env).nTicks ≤ history.waited env

/-- A call keeps the counts below the waits. -/
theorem Counted.record (counted : history.Counted) (settled : history.machine.Settled)
    {call : SchedCall} {machine : SchedMachine sizeofEnv}
    (enabled : history.machine.Enabled call) (fresh : LeavesFresh history.machine call)
    (performed : history.machine.perform call = .ok machine) :
    (history.record call machine).Counted := by
  intro env ready
  have waits := ((settled.perform enabled).of_ok performed).2.1 env ready
  change (machine.sched.envs env).nTicks ≤ if _ then _ else _
  rcases waits with zero | ⟨before, le⟩ | ⟨leaves, running, le⟩
  · rw [zero]
    exact Nat.zero_le _
  · rw [if_pos ⟨before, ready⟩]
    exact le.trans (Nat.add_le_add_right (counted env before) _)
  · obtain ⟨contents, settled⟩ := settled
    rw [fresh leaves env (settled.proc_of_running running)] at le
    exact le.trans (Nat.zero_le _)

theorem waitsCounted_of_run (run : Run LeavesFresh history) : history.Counted := by
  induction run with
  | refl => exact fun _ ready => nomatch ready
  | tail before step ih =>
      obtain ⟨call, machine, enabled, fresh, performed, rfl⟩ := step
      exact ih.record (SchedMachine.settled_of_run (run_machine before)) enabled fresh performed

/-- **Only environments that have waited are raised.** In every run in which each process that
leaves the CPU and stays ready has counted no ticks, a clock tick raises an environment only when
it has stayed ready for more ticks than the threshold. -/
theorem waited_of_raised_of_run (run : Run LeavesFresh history) {after : Scheduler sizeofEnv}
    (ticked : history.machine.sched.promoteStarved = .ok after)
    (raised : (after.envs env).priority < (history.machine.sched.envs env).priority) :
    (history.machine.sched.envs env).envStatus = .ready ∧
      history.machine.sched.starvationThreshold < history.waited env := by
  obtain ⟨contents, settled⟩ := SchedMachine.settled_of_run (run_machine run)
  obtain ⟨_, contents', visited, called, -, visits, ready⟩ := settled.promoteStarved
  obtain rfl := Except.ok.inj (called.symm.trans ticked)
  by_cases member : env ∈ visited
  · rw [visits.ticked env member] at raised
    exact ⟨ready env member, Nat.lt_of_lt_of_le (SchedEnv.ticked_raised raised)
      (waitsCounted_of_run run env (ready env member))⟩
  · rw [visits.rest env member] at raised
    exact absurd raised (Nat.lt_irrefl _)

/-- The calls of a list, in order, recorded as long as they are allowed. -/
def follow (Allowed : SchedMachine sizeofEnv → SchedCall → Prop)
    [∀ machine call, Decidable (Allowed machine call)] (history : SchedHistory sizeofEnv) :
    List SchedCall → Option (SchedHistory sizeofEnv)
  | [] => some history
  | call :: calls =>
      if history.machine.Enabled call ∧ Allowed history.machine call then
        match history.machine.perform call with
        | .ok machine => follow Allowed (history.record call machine) calls
        | .error _ => none
      else none

theorem run_of_follow {Allowed : SchedMachine sizeofEnv → SchedCall → Prop}
    [∀ machine call, Decidable (Allowed machine call)] (run : Run Allowed history)
    (calls : List SchedCall) (followed : follow Allowed history calls = some next) :
    Run Allowed next := by
  induction calls generalizing history with
  | nil =>
      obtain rfl := Option.some.inj followed
      exact run
  | cons call calls ih =>
      unfold follow at followed
      split at followed
      · rename_i allowed
        cases performed : history.machine.perform call with
        | error stop =>
            rw [performed] at followed
            nomatch followed
        | ok machine =>
            rw [performed] at followed
            exact ih (.tail run ⟨call, machine, allowed.1, allowed.2, performed, rfl⟩) followed
      · nomatch followed

instance (machine : SchedMachine sizeofEnv) (call : SchedCall) :
    Decidable (LeavesFresh machine call) :=
  inferInstanceAs (Decidable (call.leaves = true → ∀ env ∈ machine.sched.proc,
    (machine.sched.envs env).nTicks = 0))

/-- Two environments of one level. -/
def pairCalls (threshold : UInt32) : List SchedCall :=
  [.schedInitPRIRR 2 threshold, .envCreate, .envSetPriority (firstEnvId 1480 0) 1, .schedNewEnv 0,
    .envCreate, .envSetPriority (firstEnvId 1480 1) 1, .schedNewEnv 1, .schedRunAll]

/-- Two environments take turns. With a threshold of one tick, one of them is raised at the tick
after it has left the CPU. -/
theorem raised_without_wait : ∃ (history : SchedHistory 1480) (after : Scheduler 1480),
    Run (fun _ _ => True) history ∧ history.machine.sched.promoteStarved = .ok after ∧
      (after.envs 0).priority < (history.machine.sched.envs 0).priority ∧
        history.waited 0 = 0 ∧ history.machine.sched.starvationThreshold = 1 := by
  have found : ((follow (fun _ _ => True) (boot 1480) (pairCalls 1 ++ [.clockInterrupt,
      .clockInterrupt, .clockInterrupt, .clockInterrupt, .clockInterrupt])).any fun history =>
        decide (history.waited 0 = 0 ∧ history.machine.sched.starvationThreshold = 1) &&
          Returns history.machine.sched.promoteStarved fun after =>
            decide ((after.envs 0).priority < (history.machine.sched.envs 0).priority)) = true := by
    decide +kernel
  obtain ⟨history, followed, checks⟩ := (Option.any_eq_true ..).mp found
  rw [Bool.and_eq_true] at checks
  obtain ⟨after, ticked, raised⟩ := Returns.exists checks.2
  exact ⟨history, after, run_of_follow .refl _ followed, ticked, of_decide_eq_true raised,
    of_decide_eq_true checks.1⟩

/-- The theorem for an environment below one that keeps the CPU. -/
theorem waited_of_raised_once : ∃ (history : SchedHistory 1480) (after : Scheduler 1480),
    Run LeavesFresh history ∧ history.machine.sched.promoteStarved = .ok after ∧
      (after.envs 1).priority < (history.machine.sched.envs 1).priority ∧
        history.machine.sched.starvationThreshold < history.waited 1 := by
  have found : ((follow LeavesFresh (boot 1480) [.schedInitPRIRR 2 1, .envCreate, .schedNewEnv 0,
      .envCreate, .envSetPriority (firstEnvId 1480 1) 1, .schedNewEnv 1, .schedRunAll,
      .clockInterrupt, .clockInterrupt]).any fun history =>
        Returns history.machine.sched.promoteStarved fun after =>
          decide ((after.envs 1).priority < (history.machine.sched.envs 1).priority)) = true := by
    decide +kernel
  obtain ⟨history, followed, checks⟩ := (Option.any_eq_true ..).mp found
  obtain ⟨after, ticked, raised⟩ := Returns.exists checks
  have run := run_of_follow .refl _ followed
  exact ⟨history, after, run, ticked, of_decide_eq_true raised,
    (waited_of_raised_of_run run ticked (of_decide_eq_true raised)).2⟩

end SchedHistory

end FosKernel
