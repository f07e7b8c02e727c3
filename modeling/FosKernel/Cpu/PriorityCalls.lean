import FosKernel.Cpu.SchedRuns

/-!
# Interrupted changes of priority

`env_set_priority` tests the status of an environment without `qlock`, and releases
`qlock` between the removal of a ready environment and its insertion. It runs in a
system call, where interrupts are enabled, so that other processes can run between its
steps. A step here is a critical section, an assignment or a call that nothing can
interrupt.
-/

namespace FosKernel

/-- How far an `env_set_priority` has got: it has tested the status of the environment, it has
removed the environment from its ready queue, or it has stored the priority after that. -/
inductive PriorityPhase where
  | checked (ready : Bool)
  | removed
  | assigned
  deriving DecidableEq, Repr

/-- An `env_set_priority` in progress. -/
structure PriorityCall where
  env : Nat
  priority : Nat
  phase : PriorityPhase
  deriving DecidableEq

/-- A ready environment is in no queue. -/
def PriorityPhase.outside : PriorityPhase → Bool
  | .checked _ => false
  | .removed => true
  | .assigned => true

namespace Scheduler

variable {sizeofEnv : Nat} {sched after : Scheduler sizeofEnv} {contents : QueueName → List Nat}
  {adding : List Nat} {env : Nat}

/-- `env_set_priority` up to its test of the status. -/
def checkPriority (sched : Scheduler sizeofEnv) (envID : BitVec 32) (priority : Int) :
    Except SchedStop (Option PriorityCall) :=
  if priority < 0 ∨ (sched.numOfReadyQueues : Int) ≤ priority then .error .panic
  else
    match sched.envid2env envID with
    | none => .ok none
    | some none => .error .nullPointer
    | some (some env) =>
        .ok (some ⟨env, priority.toNat,
          .checked (decide ((sched.envs env).envStatus = .ready))⟩)

/-- The next step of `env_set_priority`, and what is left of the call. -/
def advancePriority (sched : Scheduler sizeofEnv) (call : PriorityCall) :
    Except SchedStop (Option PriorityCall × Scheduler sizeofEnv) :=
  let assigned := sched.setEnv call.env { sched.envs call.env with priority := call.priority }
  match call.phase with
  | .checked true => do
      let queue ← sched.readyQueue (sched.envs call.env).priority
      return (some { call with phase := .removed }, sched.removeFromQueue queue call.env)
  | .checked false => .ok (none, assigned)
  | .removed => .ok (some { call with phase := .assigned }, assigned)
  | .assigned => do
      let sched ← sched.schedInsertReady (some call.env)
      return (none, sched)

/-- The steps that are left, one after the other. -/
def finishPriority : Nat → Scheduler sizeofEnv → PriorityCall →
    Except SchedStop (Scheduler sizeofEnv)
  | 0, sched, _ => .ok sched
  | rounds + 1, sched, call => do
      let (left, sched) ← sched.advancePriority call
      match left with
      | none => return sched
      | some call => finishPriority rounds sched call

/-- Uninterrupted, the steps are the call. -/
theorem envSetPriority_eq_finishPriority (sched : Scheduler sizeofEnv) (envID : BitVec 32)
    (priority : Int) : sched.envSetPriority envID priority =
      sched.checkPriority envID priority >>= fun call =>
        call.elim (.ok sched) (sched.finishPriority 3) := by
  unfold envSetPriority checkPriority
  by_cases bad : priority < 0 ∨ (sched.numOfReadyQueues : Int) ≤ priority
  · rw [if_pos bad, if_pos bad]
    rfl
  rw [if_neg bad, if_neg bad]
  rcases sched.envid2env envID with _ | _ | env
  · rfl
  · rfl
  · dsimp only
    by_cases ready : (sched.envs env).envStatus = .ready
    · rw [if_pos ready, decide_eq_true ready]
      change _ = sched.finishPriority 3 ⟨env, priority.toNat, .checked true⟩
      unfold finishPriority advancePriority
      dsimp only
      cases sched.readyQueue (sched.envs env).priority with
      | error stop => rfl
      | ok queue =>
          let moved := (sched.removeFromQueue queue env).setEnv env
            { sched.envs env with priority := priority.toNat }
          change moved.schedInsertReady (some env) =
            (moved.schedInsertReady (some env) >>= fun sched => .ok (none, sched)) >>= _
          cases moved.schedInsertReady (some env) with
          | error stop => rfl
          | ok after => rfl
    · rw [if_neg ready, decide_eq_false ready]
      rfl

end Scheduler

/-- Where a live environment is. -/
inductive EnvPlace where
  | cpu
  | queue (name : QueueName)
  deriving DecidableEq

namespace EnvPlace

variable {sizeofEnv : Nat}

/-- The status of the environments in a place. -/
def status : EnvPlace → EnvStatus
  | .cpu => .running
  | .queue name => name.status

/-- The environment is in the place. -/
def Has (sched : Scheduler sizeofEnv) (contents : QueueName → List Nat) (env : Nat) :
    EnvPlace → Prop
  | .cpu => sched.proc = some env
  | .queue name => env ∈ contents name

end EnvPlace

namespace SchedMachine

variable {sizeofEnv : Nat} {machine : SchedMachine sizeofEnv}

/-- **Queue discipline.** The queues hold sequences without duplicates, as long as their `size`
says, and every live environment that the scheduler has taken is in one place only, which its
status tells, and a ready one in the queue of its priority. -/
def Disciplined (machine : SchedMachine sizeofEnv) : Prop :=
  ∃ contents, machine.sched.queues.Holds contents ∧
    (∀ name, (machine.sched.queue name).size = (contents name).length ∧
      (contents name).Nodup) ∧
    ∀ env, (machine.sched.envs env).envStatus ≠ .free → env ∉ machine.adding →
      ∃ place : EnvPlace, place.Has machine.sched contents env ∧
        (∀ other : EnvPlace, other.Has machine.sched contents env → other = place) ∧
        (machine.sched.envs env).envStatus = place.status ∧
        ∀ level, place = .queue (.ready level) → (machine.sched.envs env).priority = level

theorem Settled.disciplined (settled : machine.Settled) : machine.Disciplined := by
  obtain ⟨contents, settled⟩ := settled
  have placed := settled.placed
  refine ⟨contents, placed.holds, fun name => ⟨placed.size_eq name,
    (placed.holds.represents name).nodup⟩, fun env live taken => ?_⟩
  rcases placed.covers env (placed.ids env live).1 with loose | ⟨name, member⟩
  · rcases List.mem_append.mp loose with on | new
    · have on := Option.mem_toList.mp on
      obtain ⟨outside, running, -⟩ := settled.running env on
      refine ⟨.cpu, on, fun other has => ?_, running, nofun⟩
      cases other with
      | cpu => rfl
      | queue name => exact absurd has (outside name)
    · exact absurd new taken
  · have suits := placed.suits name env member
    refine ⟨.queue name, member, fun other has => ?_, suits.status, fun level same => ?_⟩
    · cases other with
      | cpu => exact absurd member ((settled.running env has).1 name)
      | queue other =>
          by_contra different
          exact placed.holds.disjoint other name
            (fun same => different (congrArg _ same)) has member
    · cases same
      exact suits.2.1

end SchedMachine

/-- The scheduler, and the `env_set_priority` that each process is in. -/
structure PriorityMachine (sizeofEnv : Nat) where
  machine : SchedMachine sizeofEnv
  calls : Nat → Option PriorityCall

/-- A step: a call that nothing can interrupt, or a step of the `env_set_priority` of the process on
the CPU. -/
inductive PriorityAct where
  | call (call : SchedCall)
  | check (envID : BitVec 32) (priority : Int)
  | advance

/-- What interrupt handlers call. -/
def SchedCall.interrupts : SchedCall → Bool
  | .clockInterrupt => true
  | .wakeupOne _ => true
  | .wakeupAll _ => true
  | _ => false

namespace PriorityMachine

open Scheduler

variable {sizeofEnv : Nat} {state after : PriorityMachine sizeofEnv} {act : PriorityAct}
  {call : PriorityCall} {env : Nat}

/-- The `env_set_priority` that the process on the CPU is in. -/
def current (state : PriorityMachine sizeofEnv) : Option PriorityCall :=
  state.machine.sched.proc.bind state.calls

/-- A process in an `env_set_priority` makes no other call, but can be interrupted. -/
def Enabled (state : PriorityMachine sizeofEnv) : PriorityAct → Prop
  | .call call => state.machine.Enabled call ∧ (state.current = none ∨ call.interrupts = true)
  | .check _ _ => state.current = none ∧ state.machine.sched.proc ≠ none
  | .advance => state.current ≠ none

/-- A step. -/
def exec (state : PriorityMachine sizeofEnv) :
    PriorityAct → Except SchedStop (PriorityMachine sizeofEnv)
  | .call call => do
      let machine ← state.machine.perform call
      return { state with machine := machine }
  | .check envID priority =>
      match state.machine.sched.proc with
      | none => .ok state
      | some caller => do
          let call ← state.machine.sched.checkPriority envID priority
          return { state with calls := Function.update state.calls caller call }
  | .advance =>
      match state.machine.sched.proc with
      | none => .ok state
      | some caller =>
          match state.calls caller with
          | none => .ok state
          | some call => do
              let (left, sched) ← state.machine.sched.advancePriority call
              return ⟨{ state.machine with sched := sched },
                Function.update state.calls caller left⟩

/-- No `env_set_priority` has removed its environment and not inserted it again. -/
def Quiet (state : PriorityMachine sizeofEnv) : Prop :=
  ∀ env < nenv sizeofEnv, ∀ call ∈ state.calls env, call.phase.outside = false

/-- What `env_set_priority` has found out is still the case where it goes on: the environment that
it found ready is ready, or the one that it found not to be is not, and the priority is one of a
ready queue. -/
def StillSo (state : PriorityMachine sizeofEnv) (call : PriorityCall) : Prop :=
  (call.phase = .checked true → state.Quiet ∧
    (state.machine.sched.envs call.env).envStatus = .ready) ∧
  (call.phase = .checked false → state.Quiet ∧
    (state.machine.sched.envs call.env).envStatus ≠ .ready ∧
      (state.machine.sched.envs call.env).envStatus ≠ .free ∧
        call.priority < state.machine.sched.numOfReadyQueues)

/-- No step comes between the removal of an environment and its insertion, and `env_set_priority`
goes on with what is still the case. -/
def Uninterrupted (state : PriorityMachine sizeofEnv) : PriorityAct → Prop
  | .call _ => state.Quiet
  | .check _ _ => state.Quiet
  | .advance => ∀ call ∈ state.current, state.StillSo call

/-- The machine after boot. -/
def boot (sizeofEnv : Nat) : PriorityMachine sizeofEnv := ⟨.boot sizeofEnv, fun _ => none⟩

/-- A step that is allowed. -/
def Step (Allowed : PriorityMachine sizeofEnv → PriorityAct → Prop)
    (before after : PriorityMachine sizeofEnv) : Prop :=
  ∃ act, before.Enabled act ∧ Allowed before act ∧ before.exec act = .ok after

/-- A run of allowed steps from boot. -/
def Run (Allowed : PriorityMachine sizeofEnv → PriorityAct → Prop) :
    PriorityMachine sizeofEnv → Prop :=
  Relation.ReflTransGen (Step Allowed) (boot sizeofEnv)

/-- The process on the CPU has removed an environment that is ready and not inserted it again. -/
structure Removed (state : PriorityMachine sizeofEnv) (caller : Nat) (call : PriorityCall) :
    Prop where
  on : state.machine.sched.proc = some caller
  progress : state.calls caller = some call
  outside : call.phase.outside = true
  others : ∀ env < nenv sizeofEnv, env ≠ caller → ∀ call ∈ state.calls env,
    call.phase.outside = false
  started : state.machine.sched.started = true
  loosened : ∃ contents, state.machine.sched.Loosened contents state.machine.adding call.env
  ready : (state.machine.sched.envs call.env).envStatus = .ready

/-- The machine is settled, or an `env_set_priority` is between its critical sections. -/
def Good (state : PriorityMachine sizeofEnv) : Prop :=
  state.Quiet ∧ state.machine.Settled ∨ ∃ caller call, state.Removed caller call

theorem Removed.not_quiet {caller : Nat} (removed : state.Removed caller call) :
    ¬ state.Quiet := by
  intro quiet
  obtain ⟨contents, loosened⟩ := removed.loosened
  have running := (loosened.running caller removed.on).2.2.1
  have bound := (loosened.placed.ids caller (running ▸ nofun)).1
  have inside := quiet caller bound call removed.progress
  rw [removed.outside] at inside
  cases inside

theorem Good.settled (good : state.Good) (quiet : state.Quiet) : state.machine.Settled := by
  rcases good with ⟨-, settled⟩ | ⟨caller, call, removed⟩
  · exact settled
  · exact absurd quiet removed.not_quiet

/-- Where the process on the CPU is between its critical sections. -/
theorem Good.removed (good : state.Good) {caller : Nat}
    (on : state.machine.sched.proc = some caller) (progress : state.calls caller = some call)
    (outside : call.phase.outside = true) : state.Removed caller call := by
  rcases good with ⟨quiet, contents, settled⟩ | ⟨caller', call', removed⟩
  · have running := (settled.running caller on).2.1
    have inside := quiet caller (settled.placed.ids caller (running ▸ nofun)).1 call progress
    rw [outside] at inside
    cases inside
  · obtain rfl := Option.some.inj (on.symm.trans removed.on)
    obtain rfl := Option.some.inj (progress.symm.trans removed.progress)
    exact removed

/-- A call of the process on the CPU ends, or goes on without removing an environment. -/
theorem quiet_update {calls : Nat → Option PriorityCall} {caller : Nat}
    {left : Option PriorityCall}
    (others : ∀ env < nenv sizeofEnv, env ≠ caller → ∀ call ∈ calls env,
      call.phase.outside = false) (inside : ∀ call ∈ left, call.phase.outside = false) :
    ∀ env < nenv sizeofEnv, ∀ call ∈ Function.update calls caller left env,
      call.phase.outside = false := by
  intro env bound call member
  by_cases same : env = caller
  · subst same
    rw [Function.update_self] at member
    exact inside call member
  · rw [Function.update_of_ne same] at member
    exact others env bound same call member

theorem checkPriority_phase {sched : Scheduler sizeofEnv} {envID : BitVec 32} {priority : Int}
    {left : Option PriorityCall} (checked : sched.checkPriority envID priority = .ok left) :
    ∀ call ∈ left, call.phase.outside = false := by
  unfold checkPriority at checked
  split at checked
  · cases checked
  · split at checked
    · obtain rfl := Except.ok.inj checked
      nofun
    · cases checked
    · obtain rfl := Except.ok.inj checked
      rintro call ⟨⟩
      rfl

/-- A ready environment is removed. -/
theorem Good.remove (quiet : state.Quiet) (settled : state.machine.Settled) {caller : Nat}
    (on : state.machine.sched.proc = some caller)
    (ready : (state.machine.sched.envs call.env).envStatus = .ready)
    (name : QueueName) (queue : name = .ready (state.machine.sched.envs call.env).priority) :
    (⟨{ state.machine with sched := state.machine.sched.removeFromQueue name call.env },
      Function.update state.calls caller (some { call with phase := .removed })⟩ :
        PriorityMachine sizeofEnv).Good := by
  obtain ⟨contents, settled⟩ := settled
  obtain ⟨front, back, split⟩ := List.mem_iff_append.mp (settled.mem_ready ready)
  rw [← queue] at split
  refine .inr ⟨caller, { call with phase := .removed }, on, Function.update_self .., rfl, ?_,
    settled.started on, ⟨_, settled.toArranged.loosen split⟩, ready⟩
  intro env bound different other member
  dsimp only at member
  rw [Function.update_of_ne different] at member
  exact quiet env bound other member

/-- The next step of an `env_set_priority`. -/
theorem Good.advance (good : state.Good) {caller : Nat}
    (on : state.machine.sched.proc = some caller) (progress : state.calls caller = some call)
    (still : state.StillSo call) {left : Option PriorityCall} {sched : Scheduler sizeofEnv}
    (advanced : state.machine.sched.advancePriority call = .ok (left, sched)) :
    (⟨{ state.machine with sched := sched }, Function.update state.calls caller left⟩ :
      PriorityMachine sizeofEnv).Good := by
  unfold advancePriority at advanced
  cases phase : call.phase with
  | checked ready =>
      cases ready with
      | true =>
          simp only [phase] at advanced
          obtain ⟨quiet, ready⟩ := still.1 phase
          obtain ⟨queue, level, same⟩ := bind_eq_ok.mp advanced
          obtain ⟨rfl, rfl⟩ := Prod.mk.inj (Except.ok.inj same)
          refine .remove quiet (good.settled quiet) on ready queue ?_
          unfold readyQueue at level
          split at level
          · exact (Except.ok.inj level).symm
          · cases level
      | false =>
          simp only [phase] at advanced
          obtain ⟨quiet, ready, used, below⟩ := still.2 phase
          obtain ⟨rfl, rfl⟩ := Prod.mk.inj (Except.ok.inj advanced)
          obtain ⟨contents, settled⟩ := good.settled quiet
          exact .inl ⟨quiet_update (fun env bound _ => quiet env bound) nofun, contents,
            settled.setPriority ready used below⟩
  | removed =>
      simp only [phase] at advanced
      obtain ⟨rfl, rfl⟩ := Prod.mk.inj (Except.ok.inj advanced)
      have removed := good.removed on progress (by rw [phase]; rfl)
      obtain ⟨contents, loosened⟩ := removed.loosened
      have ids := loosened.placed.ids call.env (removed.ready ▸ nofun)
      refine .inr ⟨caller, { call with phase := .assigned }, on, Function.update_self .., rfl, ?_,
        removed.started, ⟨contents, loosened.setEnv _ ids⟩, ?_⟩
      · intro env bound different other member
        dsimp only at member
        rw [Function.update_of_ne different] at member
        exact removed.others env bound different other member
      · dsimp only
        rw [setEnv_self]
        exact removed.ready
  | assigned =>
      simp only [phase] at advanced
      obtain ⟨sched, inserted, same⟩ := bind_eq_ok.mp advanced
      obtain ⟨rfl, rfl⟩ := Prod.mk.inj (Except.ok.inj same)
      have removed := good.removed on progress (by rw [phase]; rfl)
      obtain ⟨contents, loosened⟩ := removed.loosened
      obtain ⟨rfl, -, arranged⟩ := (schedInsertReady_ends loosened (.refl 0 false _)
        (removed.ready ▸ nofun) (removed.ready ▸ nofun)).of_ok inserted
      refine .inl ⟨quiet_update removed.others nofun, _, arranged, fun stopped => ?_⟩
      exact absurd (removed.started.symm.trans stopped) nofun

/-- A step that nothing interrupts. -/
theorem Good.step (good : state.Good) (step : Step Uninterrupted state after) : after.Good := by
  obtain ⟨act, enabled, allowed, executed⟩ := step
  cases act with
  | call call =>
      obtain ⟨machine, performed, same⟩ := bind_eq_ok.mp executed
      obtain rfl := Except.ok.inj same
      exact .inl ⟨allowed, (((good.settled allowed).perform enabled.1).of_ok performed).1⟩
  | check envID priority =>
      dsimp only [exec] at executed
      split at executed
      · exact Except.ok.inj executed ▸ good
      · rename_i caller on
        obtain ⟨left, checked, same⟩ := bind_eq_ok.mp executed
        obtain rfl := Except.ok.inj same
        exact .inl ⟨quiet_update (fun env bound _ => allowed env bound)
          (checkPriority_phase checked),
          good.settled allowed⟩
  | advance =>
      dsimp only [exec] at executed
      split at executed
      · exact Except.ok.inj executed ▸ good
      · rename_i caller on
        split at executed
        · exact Except.ok.inj executed ▸ good
        · rename_i call progress
          obtain ⟨⟨left, sched⟩, advanced, same⟩ := bind_eq_ok.mp executed
          obtain rfl := Except.ok.inj same
          refine good.advance on progress (allowed call ?_) advanced
          rw [current, on]
          exact progress

theorem good_of_run (run : Run Uninterrupted state) : state.Good := by
  induction run with
  | refl => exact .inl ⟨nofun, SchedMachine.boot_settled⟩
  | tail _ step ih => exact ih.step step

/-- **Queue discipline.** In every run in which no step comes between the removal of an environment
by `env_set_priority` and its insertion, and in which `env_set_priority` goes on with what is still
the case, every state outside of these two steps keeps the queue discipline. -/
theorem disciplined_of_run (run : Run Uninterrupted state) (quiet : state.Quiet) :
    state.machine.Disciplined :=
  ((good_of_run run).settled quiet).disciplined

section Follow

instance (state : PriorityMachine sizeofEnv) : DecidablePred state.Enabled
  | .call call =>
      inferInstanceAs (Decidable (state.machine.Enabled call ∧
        (state.current = none ∨ call.interrupts = true)))
  | .check _ _ =>
      inferInstanceAs (Decidable (state.current = none ∧ state.machine.sched.proc ≠ none))
  | .advance => inferInstanceAs (Decidable (state.current ≠ none))

instance (state : PriorityMachine sizeofEnv) : Decidable state.Quiet :=
  decidable_of_iff ((List.range (nenv sizeofEnv)).all fun env =>
    (state.calls env).all fun call => !call.phase.outside) <| by
      simp [Quiet, Option.all_eq_true]

instance (state : PriorityMachine sizeofEnv) (call : PriorityCall) :
    Decidable (state.StillSo call) :=
  inferInstanceAs (Decidable ((_ → _ ∧ _) ∧ (_ → _ ∧ _ ∧ _ ∧ _)))

instance (state : PriorityMachine sizeofEnv) : DecidablePred state.Uninterrupted
  | .call _ => inferInstanceAs (Decidable state.Quiet)
  | .check _ _ => inferInstanceAs (Decidable state.Quiet)
  | .advance => inferInstanceAs (Decidable (∀ call ∈ state.current, state.StillSo call))

/-- The steps of a list, in order, as long as they are allowed. -/
def follow (Allowed : PriorityMachine sizeofEnv → PriorityAct → Prop)
    [∀ state act, Decidable (Allowed state act)] (state : PriorityMachine sizeofEnv) :
    List PriorityAct → Option (PriorityMachine sizeofEnv)
  | [] => some state
  | act :: acts =>
      if state.Enabled act ∧ Allowed state act then
        match state.exec act with
        | .ok after => follow Allowed after acts
        | .error _ => none
      else none

theorem run_of_follow {Allowed : PriorityMachine sizeofEnv → PriorityAct → Prop}
    [∀ state act, Decidable (Allowed state act)] (run : Run Allowed state)
    (acts : List PriorityAct) (followed : follow Allowed state acts = some after) :
    Run Allowed after := by
  induction acts generalizing state with
  | nil =>
      obtain rfl := Option.some.inj followed
      exact run
  | cons act acts ih =>
      unfold follow at followed
      split at followed
      · rename_i allowed
        cases executed : state.exec act with
        | error stop =>
            rw [executed] at followed
            nomatch followed
        | ok middle =>
            rw [executed] at followed
            exact ih (.tail run ⟨act, allowed.1, allowed.2, executed⟩) followed
      · nomatch followed

end Follow

/-- Two environments of the highest level of two. The first one is on the CPU and has found the
second one ready. -/
def checkedActs : List PriorityAct :=
  [.call (.schedInitPRIRR 2 5), .call .envCreate, .call (.schedNewEnv 0), .call .envCreate,
    .call (.schedNewEnv 1), .call .schedRunAll, .check (firstEnvId 1480 1) 1]

/-- The second environment runs and sleeps before the first one goes on: it is on the channel and in
a ready queue. -/
theorem not_disciplined_after_sleep : ∃ state : PriorityMachine 1480,
    Run (fun _ _ => True) state ∧ state.Quiet ∧ ¬ state.machine.Disciplined := by
  have found : ((follow (fun _ _ => True) (boot 1480) (checkedActs ++ [.call .clockInterrupt,
      .call (.sleep 3), .advance, .advance, .advance])).any fun state =>
        decide state.Quiet && decide ((state.machine.sched.queue (.channel 3)).first = some 1 ∧
          (state.machine.sched.queue (.ready 1)).first = some 1)) = true := by
    decide +kernel
  obtain ⟨state, followed, checks⟩ := (Option.any_eq_true ..).mp found
  rw [Bool.and_eq_true] at checks
  obtain ⟨channel, ready⟩ := of_decide_eq_true checks.2
  refine ⟨state, run_of_follow .refl _ followed, of_decide_eq_true checks.1, ?_⟩
  rintro ⟨contents, holds, -⟩
  have first := (holds.represents (.channel 3)).first_eq.symm.trans channel
  have first' := (holds.represents (.ready 1)).first_eq.symm.trans ready
  exact holds.disjoint (.channel 3) (.ready 1) nofun (List.mem_of_head? first)
    (List.mem_of_head? first')

/-- The theorem where the second environment runs and is ready again before the first one goes
on. -/
theorem disciplined_of_run_preempted : ∃ state : PriorityMachine 1480,
    Run Uninterrupted state ∧ (state.machine.sched.envs 1).priority = 1 ∧
      state.machine.Disciplined := by
  have found : ((follow Uninterrupted (boot 1480) (checkedActs ++ [.call .clockInterrupt,
      .call .clockInterrupt, .advance, .advance, .advance])).any fun state =>
        decide state.Quiet && decide ((state.machine.sched.envs 1).priority = 1)) = true := by
    decide +kernel
  obtain ⟨state, followed, checks⟩ := (Option.any_eq_true ..).mp found
  rw [Bool.and_eq_true] at checks
  have run := run_of_follow .refl _ followed
  exact ⟨state, run, of_decide_eq_true checks.2,
    disciplined_of_run run (of_decide_eq_true checks.1)⟩

end PriorityMachine

end FosKernel
