import FosKernel.Cpu.SchedRuns

/-!
# Accesses to the ready queues

`sched_init_RR` and `sched_init_PRIRR` change the number of ready queues and leave the
priorities of the environments alone, which `env_set_priority` has checked against the
number before.
-/

namespace FosKernel

namespace SchedMachine

open Scheduler

variable {sizeofEnv : Nat} {machine : SchedMachine sizeofEnv}

theorem findFrom_ends (sched : Scheduler sizeofEnv) (envID : BitVec 32) (rounds : Nat)
    (cursor : Option Nat) :
    Ends (sched.findFrom envID rounds cursor) (fun _ => True) (· = .hang) := by
  induction rounds generalizing cursor with
  | zero =>
      cases cursor with
      | none => trivial
      | some env => exact rfl
  | succ rounds ih =>
      cases cursor with
      | none => trivial
      | some env =>
          unfold findFrom
          split
          · trivial
          · exact ih _

/-- The loop of `sched_remove_ready` stays below the number of ready queues. -/
theorem removeReadyFrom_ends (sched : Scheduler sizeofEnv) (env : Nat) (levels : List Nat)
    (below : ∀ level ∈ levels, level < sched.numOfReadyQueues) :
    Ends (sched.removeReadyFrom env levels) (fun _ => True) (· = .hang) := by
  induction levels with
  | nil => trivial
  | cons level levels ih =>
      unfold removeReadyFrom readyQueue
      rw [if_pos (below level (List.mem_cons_self ..))]
      change Ends (sched.findEnvInQueue (.ready level) _ >>= _) _ _
      refine Ends.bind (findFrom_ends sched _ _ _) fun found _ => ?_
      cases found with
      | none => exact ih fun level inside => below level (List.mem_cons_of_mem _ inside)
      | some other => trivial

theorem schedRemoveReady_ne (sched : Scheduler sizeofEnv) (env : Option Nat) (index : Nat) :
    sched.schedRemoveReady env ≠ .error (.outOfRange index) := by
  intro stopped
  unfold schedRemoveReady at stopped
  cases env with
  | none => nomatch stopped
  | some env =>
      change (if _ then _ else _ : Except SchedStop _) = _ at stopped
      split at stopped
      · nomatch (removeReadyFrom_ends sched env _ fun _ => List.mem_range.mp).of_error stopped
      · nomatch stopped

/-- **Accesses to the ready queues.** In every run in which each re-initialisation sets up enough
levels, no call uses a ready queue that is not there. -/
theorem inRange_of_run (run : Run Fits machine) {call : SchedCall}
    (enabled : machine.Enabled call) (index : Nat) :
    machine.perform call ≠ .error (.outOfRange index) ∧
      ∀ env, machine.sched.schedRemoveReady env ≠ .error (.outOfRange index) := by
  refine ⟨fun stopped => ?_, fun env => schedRemoveReady_ne machine.sched env index⟩
  exact (((settled_of_run run).perform enabled).of_error stopped).2 index rfl (leveled_of_run run)

instance (machine : SchedMachine sizeofEnv) : DecidablePred machine.Fits
  | .schedInitRR =>
      inferInstanceAs (Decidable (0 < 1 ∧ ∀ env < nenv sizeofEnv,
        (machine.sched.envs env).envStatus ≠ .exit → (machine.sched.envs env).priority < 1))
  | .schedInitPRIRR levels _ =>
      inferInstanceAs (Decidable (0 < levels.toNat ∧ ∀ env < nenv sizeofEnv,
        (machine.sched.envs env).envStatus ≠ .exit →
          (machine.sched.envs env).priority < levels.toNat))
  | .envCreate => .isTrue trivial
  | .schedNewEnv _ => .isTrue trivial
  | .schedRunEnv _ => .isTrue trivial
  | .schedRunAll => .isTrue trivial
  | .poll => .isTrue trivial
  | .yield => .isTrue trivial
  | .clockInterrupt => .isTrue trivial
  | .sleep _ => .isTrue trivial
  | .wakeupOne _ => .isTrue trivial
  | .wakeupAll _ => .isTrue trivial
  | .envSetPriority _ _ => .isTrue trivial
  | .envExit => .isTrue trivial
  | .schedSetStarvThresh _ => .isTrue trivial

/-- A new environment of level 9 outlives the ten levels. -/
def shrinkingCalls : List SchedCall :=
  [.schedInitPRIRR 10 5, .envCreate, .envSetPriority (firstEnvId 1480 0) 9, .schedNewEnv 0,
    .schedInitRR]

/-- After the change to round robin, `sched_run_all` uses ready queue 9 of one. -/
theorem outOfRange_after_schedInitRR : ∃ machine : SchedMachine 1480,
    Run (fun _ _ => True) machine ∧ machine.Enabled .schedRunAll ∧
      machine.perform .schedRunAll = .error (.outOfRange 9) := by
  have found : ((follow (fun _ _ => True) (boot 1480) shrinkingCalls).any fun machine =>
      decide (machine.Enabled .schedRunAll) && Stops (machine.perform .schedRunAll)
        (· = .outOfRange 9)) = true := by decide +kernel
  obtain ⟨machine, followed, checks⟩ := (Option.any_eq_true ..).mp found
  rw [Bool.and_eq_true] at checks
  obtain ⟨stop, stopped, equal⟩ := Stops.exists checks.2
  exact ⟨machine, run_of_follow .refl _ followed, of_decide_eq_true checks.1,
    by rw [stopped, of_decide_eq_true equal]⟩

/-- The theorem after a change from ten levels to twelve. -/
theorem inRange_of_run_growing : ∃ machine : SchedMachine 1480, Run Fits machine ∧
    machine.perform .schedRunAll ≠ .error (.outOfRange 9) := by
  have found : ((follow Fits (boot 1480)
      [.schedInitPRIRR 10 5, .envCreate, .envSetPriority (firstEnvId 1480 0) 9, .schedNewEnv 0,
        .schedInitPRIRR 12 5]).any fun machine =>
      decide (machine.Enabled .schedRunAll)) = true := by decide +kernel
  obtain ⟨machine, followed, enabled⟩ := (Option.any_eq_true ..).mp found
  have run := run_of_follow .refl _ followed
  exact ⟨machine, run, (inRange_of_run run (of_decide_eq_true enabled) 9).1⟩

end SchedMachine

end FosKernel
