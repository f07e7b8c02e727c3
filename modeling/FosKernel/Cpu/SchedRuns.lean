import FosKernel.Cpu.Exits

/-!
# Runs of the scheduler

The scheduler after any sequence of calls from boot: of processes, of the clock and of
the command prompt. Policies are set at the prompt, where no process runs.
-/

namespace FosKernel

/-- The calls that the scheduler's state goes through. -/
inductive SchedCall where
  | envCreate
  | schedNewEnv (env : Nat)
  | schedRunEnv (envId : BitVec 32)
  | schedRunAll
  | poll
  | yield
  | clockInterrupt
  | sleep (chan : Nat)
  | wakeupOne (chan : Nat)
  | wakeupAll (chan : Nat)
  | envSetPriority (envID : BitVec 32) (priority : Int)
  | envExit
  | schedInitRR
  | schedInitPRIRR (numOfPriorities : UInt8) (starvThresh : UInt32)
  | schedSetStarvThresh (starvThresh : UInt32)

namespace SchedCall

/-- The clock ticks that a call counts. -/
def ticks : SchedCall → Nat
  | .clockInterrupt => 1
  | _ => 0

/-- The process on the CPU stays ready. -/
def leaves : SchedCall → Bool
  | .clockInterrupt => true
  | .yield => true
  | _ => false

end SchedCall

/-- The scheduler, and the environments that `env_create` has returned and `sched_new_env` has not
taken yet. -/
structure SchedMachine (sizeofEnv : Nat) where
  sched : Scheduler sizeofEnv
  adding : List Nat

namespace SchedMachine

open Scheduler

variable {sizeofEnv : Nat} {machine after : SchedMachine sizeofEnv} {call : SchedCall}

/-- A call that leaves new environments alone. -/
def lift (machine : SchedMachine sizeofEnv) (call : Except SchedStop (Scheduler sizeofEnv)) :
    Except SchedStop (SchedMachine sizeofEnv) :=
  call >>= fun sched => .ok { machine with sched := sched }

/-- A call. -/
def perform (machine : SchedMachine sizeofEnv) :
    SchedCall → Except SchedStop (SchedMachine sizeofEnv)
  | .envCreate =>
      match machine.sched.envCreate with
      | none => .ok machine
      | some (env, sched) => .ok ⟨sched, env :: machine.adding⟩
  | .schedNewEnv env =>
      lift { machine with adding := machine.adding.filter (· ≠ env) }
        (machine.sched.schedNewEnv env)
  | .schedRunEnv envId => machine.lift (machine.sched.schedRunEnv envId)
  | .schedRunAll => machine.lift machine.sched.schedRunAll
  | .poll => machine.lift machine.sched.dispatch
  | .yield => machine.lift machine.sched.yield
  | .clockInterrupt => machine.lift machine.sched.clockInterruptHandler
  | .sleep chan => machine.lift (machine.sched.sleep chan)
  | .wakeupOne chan => machine.lift (machine.sched.wakeupOne chan)
  | .wakeupAll chan => machine.lift (machine.sched.wakeupAll chan)
  | .envSetPriority envID priority => machine.lift (machine.sched.envSetPriority envID priority)
  | .envExit => machine.lift machine.sched.envExit
  | .schedInitRR => .ok { machine with sched := machine.sched.schedInitRR }
  | .schedInitPRIRR numOfPriorities starvThresh =>
      .ok { machine with sched := machine.sched.schedInitPRIRR numOfPriorities starvThresh }
  | .schedSetStarvThresh starvThresh =>
      .ok { machine with sched := machine.sched.schedSetStarvThresh starvThresh }

/-- Where calls are made: `sched_new_env` on a new environment, the scheduler's own search for a
ready environment while it waits, and some commands only at the prompt. -/
def Enabled (machine : SchedMachine sizeofEnv) : SchedCall → Prop
  | .schedNewEnv env => env ∈ machine.adding
  | .poll => machine.sched.started = true ∧ machine.sched.proc = none
  | .schedRunAll => machine.sched.started = false
  | .schedInitRR => machine.sched.started = false
  | .schedInitPRIRR _ _ => machine.sched.started = false
  | _ => True

/-- What a re-initialisation needs: a level, and more levels than the priority of every environment
that has not exited. -/
def FitsLevels (machine : SchedMachine sizeofEnv) (levels : Nat) : Prop :=
  0 < levels ∧ ∀ env < nenv sizeofEnv, (machine.sched.envs env).envStatus ≠ .exit →
    (machine.sched.envs env).priority < levels

/-- A re-initialisation sets up enough levels. -/
def Fits (machine : SchedMachine sizeofEnv) : SchedCall → Prop
  | .schedInitRR => machine.FitsLevels 1
  | .schedInitPRIRR numOfPriorities _ => machine.FitsLevels numOfPriorities.toNat
  | _ => True

/-- The scheduler is between two calls. -/
def Settled (machine : SchedMachine sizeofEnv) : Prop :=
  ∃ contents, machine.sched.Settled contents machine.adding

/-- A ready environment has counted no ticks, or one more than before at most. It may come from
the CPU. -/
def Waits (ticks : Nat) (leaves : Bool) (before after : SchedMachine sizeofEnv) : Prop :=
  ∀ env, (after.sched.envs env).envStatus = .ready → (after.sched.envs env).nTicks = 0 ∨
    (before.sched.envs env).envStatus = .ready ∧
      (after.sched.envs env).nTicks ≤ (before.sched.envs env).nTicks + ticks ∨
    leaves = true ∧ (before.sched.envs env).envStatus = .running ∧
      (after.sched.envs env).nTicks ≤ (before.sched.envs env).nTicks

/-- What holds where a call ends. -/
def Performs (machine : SchedMachine sizeofEnv) (call : SchedCall)
    (result : Except SchedStop (SchedMachine sizeofEnv)) : Prop :=
  Ends result
    (fun after => after.Settled ∧ Waits call.ticks call.leaves machine after ∧
      (machine.Fits call → machine.sched.Leveled → after.sched.Leveled))
    fun stop => stop ≠ .hang ∧ ∀ index, stop = .outOfRange index → ¬ machine.sched.Leveled

/-- A call that settles. -/
theorem performs_lift {adding : List Nat} {result : Except SchedStop (Scheduler sizeofEnv)}
    (settles : Settles machine.sched call.ticks call.leaves adding result) :
    Performs machine call (lift { machine with adding := adding } result) := by
  refine Ends.bind settles fun sched ⟨settled, moved⟩ => ?_
  exact Ends.ok ⟨settled, fun env ready => moved.ready ready,
    fun _ leveled => moved.leveled leveled⟩

/-- While the scheduler is stopped, the ready queues are empty. -/
theorem ready_eq_nil {sched : Scheduler sizeofEnv} {contents : QueueName → List Nat}
    {adding : List Nat} (settled : sched.Settled contents adding)
    (stopped : sched.started = false) (level : Nat) : contents (.ready level) = [] := by
  rw [List.eq_nil_iff_forall_not_mem]
  intro env member
  exact ((settled.stopped stopped).2 env).1 (settled.placed.suits _ env member).status

theorem holds_foldl_init {lists : SharedLists QueueName Nat} {contents : QueueName → List Nat}
    (holds : lists.Holds contents) (empty : ∀ level, contents (.ready level) = [])
    (levels : List Nat) :
    (levels.foldl (fun lists i => lists.init (.ready i)) lists).Holds contents := by
  induction levels generalizing lists with
  | nil => exact holds
  | cons level levels ih =>
      refine ih ?_
      have emptied := holds.init (.ready level)
      rwa [← empty level, Function.update_eq_self] at emptied

/-- A policy is set at the prompt. -/
theorem settled_init {sched : Scheduler sizeofEnv} {contents : QueueName → List Nat}
    {adding : List Nat} (settled : sched.Settled contents adding)
    (stopped : sched.started = false) (levels : List Nat) (method : SchedMethod)
    (count threshold : Nat) (single : method = .rr → count = 1) :
    ({ sched with
      numOfReadyQueues := count
      starvationThreshold := threshold
      queues := levels.foldl (fun lists i => lists.init (.ready i)) sched.queues
      started := false
      schedulerMethod := method } : Scheduler sizeofEnv).Settled contents adding := by
  have empty := ready_eq_nil settled stopped
  obtain ⟨idle, calm⟩ := settled.stopped stopped
  refine ⟨⟨⟨holds_foldl_init settled.placed.holds empty levels, settled.placed.inside, ?_,
    settled.placed.covers, settled.placed.ids, single⟩, ?_, settled.added⟩,
      fun _ => ⟨idle, calm⟩⟩
  · intro name env member
    have suits := settled.placed.suits name env member
    cases name with
    | ready level =>
        rw [empty level] at member
        cases member
    | _ => exact suits
  · change ∀ env, sched.proc = some env → _
    rw [idle]
    nofun

theorem waits_of_envs {ticks : Nat} {leaves : Bool} (same : after.sched.envs = machine.sched.envs) :
    Waits ticks leaves machine after := by
  intro env ready
  rw [same] at ready ⊢
  exact .inr (.inl ⟨ready, Nat.le_add_right ..⟩)

/-- **What a call does.** From a settled state it leads to a settled state, unless it panics. It
finds no ready queue only where an environment has no level. -/
theorem Settled.perform (settled : machine.Settled) (enabled : machine.Enabled call) :
    Performs machine call (machine.perform call) := by
  obtain ⟨contents, settled⟩ := settled
  cases call with
  | envCreate =>
      unfold SchedMachine.perform
      cases created : machine.sched.envCreate with
      | none => exact Ends.ok ⟨⟨contents, settled⟩, waits_of_envs rfl, fun _ => id⟩
      | some result =>
          obtain ⟨settled', changes⟩ := settled.envCreate false created
          exact Ends.ok ⟨settled', fun env ready => changes.moved.ready ready,
            fun _ leveled => changes.leveled leveled⟩
  | schedNewEnv env => exact performs_lift (settled.schedNewEnv enabled)
  | schedRunEnv envId => exact performs_lift (settled.schedRunEnv envId)
  | schedRunAll => exact performs_lift (settled.schedRunAll enabled)
  | poll => exact performs_lift (settled.poll enabled.1 enabled.2)
  | yield => exact performs_lift settled.yield
  | clockInterrupt => exact performs_lift settled.clockInterruptHandler
  | sleep chan => exact performs_lift (settled.sleep chan)
  | wakeupOne chan => exact performs_lift (settled.wakeupOne chan)
  | wakeupAll chan => exact performs_lift (settled.wakeupAll chan)
  | envSetPriority envID priority => exact performs_lift (settled.envSetPriority envID priority)
  | envExit => exact performs_lift settled.envExit
  | schedInitRR =>
      exact Ends.ok ⟨⟨contents, settled_init settled enabled [0] .rr 1 _ fun _ => rfl⟩,
        waits_of_envs rfl, fun fits _ => fits⟩
  | schedInitPRIRR numOfPriorities starvThresh =>
      exact Ends.ok ⟨⟨contents, settled_init settled enabled _ .prirr _ _ nofun⟩,
        waits_of_envs rfl, fun fits _ => fits⟩
  | schedSetStarvThresh starvThresh =>
      refine Ends.ok ⟨⟨contents,
        ⟨⟨?_, settled.running, settled.added⟩, settled.stopped⟩⟩,
        waits_of_envs rfl, fun _ => id⟩
      have placed := settled.placed
      exact ⟨placed.holds, placed.inside, placed.suits, placed.covers,
        placed.ids, placed.single⟩

/-- The machine after boot. -/
def boot (sizeofEnv : Nat) : SchedMachine sizeofEnv := ⟨Scheduler.boot sizeofEnv, []⟩

/-- A call that is allowed returns. -/
def Step (Allowed : SchedMachine sizeofEnv → SchedCall → Prop)
    (before after : SchedMachine sizeofEnv) : Prop :=
  ∃ call, before.Enabled call ∧ Allowed before call ∧ before.perform call = .ok after

/-- A run of allowed calls from boot. -/
def Run (Allowed : SchedMachine sizeofEnv → SchedCall → Prop) :
    SchedMachine sizeofEnv → Prop :=
  Relation.ReflTransGen (Step Allowed) (boot sizeofEnv)

theorem boot_holds (slots : List Nat) (distinct : slots.Nodup) :
    (slots.foldr (fun env (lists : SharedLists QueueName Nat) => lists.insertHead .free env)
      ⟨fun _ => ⟨none, none, 0⟩, fun _ => none, fun _ => none⟩).Holds
        (Function.update (fun _ => []) .free slots) := by
  induction slots with
  | nil =>
      rw [Function.update_eq_self_iff.mpr rfl]
      exact ⟨fun _ => ⟨List.nodup_nil, rfl, rfl, rfl, trivial⟩,
        fun _ _ _ => List.disjoint_nil_left _⟩
  | cons env slots ih =>
      obtain ⟨fresh, distinct⟩ := List.nodup_cons.mp distinct
      have absent : ∀ name, env ∉ Function.update
          (fun _ : QueueName => []) .free slots name := by
        intro name listed
        by_cases same : name = .free
        · subst same
          rw [Function.update_self] at listed
          exact fresh listed
        · rw [Function.update_of_ne same] at listed
          cases listed
      have inserted : (SharedLists.insertHead _ QueueName.free env).Holds _ :=
        (ih distinct).insertHead absent
      rwa [Function.update_self, Function.update_idem] at inserted

/-- The state after boot is settled: every environment is free. -/
theorem boot_settled : (boot sizeofEnv).Settled := by
  have listed : ∀ name env, env ∈ Function.update (fun _ : QueueName => []) .free
      (List.range (nenv sizeofEnv)) name → name = .free ∧ env < nenv sizeofEnv := by
    intro name env member
    by_cases same : name = .free
    · subst same
      rw [Function.update_self] at member
      exact ⟨rfl, List.mem_range.mp member⟩
    · rw [Function.update_of_ne same] at member
      cases member
  refine ⟨_, ⟨⟨boot_holds _ List.nodup_range, ?_, ?_, ?_, ?_, fun _ => rfl⟩, nofun,
    nofun⟩,
    fun _ => ⟨rfl, fun _ => ⟨nofun, nofun⟩⟩⟩
  · exact fun name env member => (listed name env member).2
  · intro name env member
    rw [(listed name env member).1]
    exact ⟨rfl, rfl, rfl⟩
  · refine fun env bound => .inr ⟨.free, ?_⟩
    rw [Function.update_self]
    exact List.mem_range.mpr bound
  · exact fun env used => absurd rfl used

theorem boot_leveled : (boot sizeofEnv).sched.Leveled :=
  ⟨Nat.one_pos, fun _ _ _ => Nat.one_pos⟩

/-- Every state of a run is settled. -/
theorem settled_of_run {Allowed : SchedMachine sizeofEnv → SchedCall → Prop}
    (run : Run Allowed machine) : machine.Settled := by
  induction run with
  | refl => exact boot_settled
  | tail _ step ih =>
      obtain ⟨call, enabled, -, performed⟩ := step
      exact ((ih.perform enabled).of_ok performed).1

/-- When every re-initialisation sets up enough levels, every environment has a level. -/
theorem leveled_of_run (run : Run Fits machine) : machine.sched.Leveled := by
  induction run with
  | refl => exact boot_leveled
  | tail before step ih =>
      obtain ⟨call, enabled, fits, performed⟩ := step
      exact (((settled_of_run before).perform enabled).of_ok performed).2.2 fits ih

instance (machine : SchedMachine sizeofEnv) : DecidablePred machine.Enabled
  | .envCreate => .isTrue trivial
  | .schedNewEnv env => inferInstanceAs (Decidable (env ∈ machine.adding))
  | .schedRunEnv _ => .isTrue trivial
  | .schedRunAll => inferInstanceAs (Decidable (machine.sched.started = false))
  | .poll =>
      inferInstanceAs (Decidable (machine.sched.started = true ∧ machine.sched.proc = none))
  | .yield => .isTrue trivial
  | .clockInterrupt => .isTrue trivial
  | .sleep _ => .isTrue trivial
  | .wakeupOne _ => .isTrue trivial
  | .wakeupAll _ => .isTrue trivial
  | .envSetPriority _ _ => .isTrue trivial
  | .envExit => .isTrue trivial
  | .schedInitRR => inferInstanceAs (Decidable (machine.sched.started = false))
  | .schedInitPRIRR _ _ => inferInstanceAs (Decidable (machine.sched.started = false))
  | .schedSetStarvThresh _ => .isTrue trivial

/-- The calls of a list, in order, as long as they are allowed. -/
def follow (Allowed : SchedMachine sizeofEnv → SchedCall → Prop)
    [∀ machine call, Decidable (Allowed machine call)] (machine : SchedMachine sizeofEnv) :
    List SchedCall → Option (SchedMachine sizeofEnv)
  | [] => some machine
  | call :: calls =>
      if machine.Enabled call ∧ Allowed machine call then
        match machine.perform call with
        | .ok after => follow Allowed after calls
        | .error _ => none
      else none

theorem run_of_follow {Allowed : SchedMachine sizeofEnv → SchedCall → Prop}
    [∀ machine call, Decidable (Allowed machine call)] (run : Run Allowed machine)
    (calls : List SchedCall) (followed : follow Allowed machine calls = some after) :
    Run Allowed after := by
  induction calls generalizing machine with
  | nil =>
      obtain rfl := Option.some.inj followed
      exact run
  | cons call calls ih =>
      unfold follow at followed
      split at followed
      · rename_i allowed
        cases performed : machine.perform call with
        | error stop =>
            rw [performed] at followed
            nomatch followed
        | ok middle =>
            rw [performed] at followed
            exact ih (.tail run ⟨call, allowed.1, allowed.2, performed⟩) followed
      · nomatch followed

end SchedMachine

end FosKernel
