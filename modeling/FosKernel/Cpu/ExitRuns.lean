import FosKernel.Cpu.SchedRuns

/-!
# Who can exit

The search of `sched_exit_env` in the NEW queue leaves its loop variable null, whether
it finds the environment or not.
-/

namespace FosKernel

namespace SchedMachine

open Scheduler

variable {sizeofEnv : Nat} {machine : SchedMachine sizeofEnv} {contents : QueueName → List Nat}

/-- The contents of the queues in a settled state are the only ones they represent. -/
theorem Settled.of_holds (settled : machine.Settled)
    (holds : machine.sched.queues.Holds contents) :
    machine.sched.Settled contents machine.adding := by
  obtain ⟨contents', settled⟩ := settled
  have same : contents' = contents := funext fun name =>
    (settled.placed.holds.represents name).unique (holds.represents name)
  exact same ▸ settled

/-- **Who can exit.** In every state of every run with a process on the CPU, `sched_exit_env` moves
that process or an environment of the NEW and ready queues to the EXIT queue, and nothing else,
exactly when the environment is not in the NEW queue. -/
theorem exitsAlone_iff_of_run (run : Run (fun _ _ => True) machine)
    (holds : machine.sched.queues.Holds contents) {curEnv env : Nat}
    (on : machine.sched.proc = some curEnv)
    (candidate : machine.sched.proc = some env ∨ env ∈ contents .new ∨
      ∃ level, env ∈ contents (.ready level)) :
    ExitsAlone machine.sched contents env ↔ env ∉ contents .new :=
  ((settled_of_run run).of_holds holds).exitsAlone_iff on candidate

/-- A process runs and another one is new: the search for the new one ends in a panic. -/
theorem not_exitsAlone_new : ∃ (machine : SchedMachine 1480) (contents : QueueName → List Nat),
    Run (fun _ _ => True) machine ∧ machine.sched.queues.Holds contents ∧
      machine.sched.proc = some 0 ∧ 1 ∈ contents .new ∧
        machine.sched.schedExitEnv (firstEnvId 1480 1) = .error .panic ∧
          ¬ ExitsAlone machine.sched contents 1 := by
  have found : ((follow (fun _ _ => True) (boot 1480) [.envCreate, .schedNewEnv 0,
      .schedRunEnv (firstEnvId 1480 0), .envCreate, .schedNewEnv 1]).any fun machine =>
        decide (machine.sched.proc = some 0 ∧ (machine.sched.queue .new).first = some 1) &&
          Stops (machine.sched.schedExitEnv (firstEnvId 1480 1)) (· = .panic)) = true := by
    decide +kernel
  obtain ⟨machine, followed, checks⟩ := (Option.any_eq_true ..).mp found
  rw [Bool.and_eq_true] at checks
  obtain ⟨proc, first⟩ := of_decide_eq_true checks.1
  obtain ⟨stop, stopped, equal⟩ := Stops.exists checks.2
  have run := run_of_follow .refl _ followed
  obtain ⟨contents, settled⟩ := settled_of_run run
  rw [settled.placed.first_eq] at first
  have member := List.mem_of_head? first
  exact ⟨machine, contents, run, settled.placed.holds, proc, member,
    by rw [stopped, of_decide_eq_true equal], settled.not_exitsAlone member⟩

/-- The theorem for the process on the CPU. -/
theorem exitsAlone_current : ∃ (machine : SchedMachine 1480) (contents : QueueName → List Nat),
    Run (fun _ _ => True) machine ∧ machine.sched.queues.Holds contents ∧
      machine.sched.proc = some 0 ∧ ExitsAlone machine.sched contents 0 := by
  have found : ((follow (fun _ _ => True) (boot 1480) [.envCreate, .schedNewEnv 0,
      .schedRunEnv (firstEnvId 1480 0)]).any fun machine =>
        decide (machine.sched.proc = some 0)) = true := by
    decide +kernel
  obtain ⟨machine, followed, checks⟩ := (Option.any_eq_true ..).mp found
  have proc := of_decide_eq_true checks
  have run := run_of_follow .refl _ followed
  obtain ⟨contents, settled⟩ := settled_of_run run
  exact ⟨machine, contents, run, settled.placed.holds, proc,
    (exitsAlone_iff_of_run run settled.placed.holds proc (.inl proc)).mpr
      ((settled.running 0 proc).1 .new)⟩

end SchedMachine

end FosKernel
