import FosKernel.Cpu.Undisturbed
import Mathlib.Tactic.Ring

/-!
# The law of promotion

Under the priority policy, a clock tick meets every ready environment once, also when it
moves some of them to another queue on the way. An environment that stays ready climbs
one level every `starvation_threshold + 2` ticks.
-/

namespace FosKernel

/-- After some ticks, an environment with the priority `start` and the counter `first` has climbed,
and counts on unless it is at the top. -/
def SchedEnv.Climbed (threshold start first count : Nat) (env : SchedEnv) : Prop :=
  env.priority = start - (count + first) / (threshold + 2) ∧
    (env.priority ≠ 0 → env.nTicks = (count + first) % (threshold + 2))

/-- Where an environment is when the count starts. -/
theorem SchedEnv.climbed_zero {threshold : Nat} {env : SchedEnv}
    (counted : env.nTicks ≤ threshold + 1) :
    env.Climbed threshold env.priority env.nTicks 0 := by
  have less : env.nTicks < threshold + 2 := by omega
  refine ⟨?_, fun _ => ?_⟩
  · rw [Nat.zero_add, Nat.div_eq_of_lt less, Nat.sub_zero]
  · rw [Nat.zero_add, Nat.mod_eq_of_lt less]

/-- The period of the law. -/
theorem succ_div_mod (count period : Nat) (positive : 0 < period) :
    count % period + 1 = period ∧ (count + 1) / period = count / period + 1 ∧
        (count + 1) % period = 0 ∨
      count % period + 1 < period ∧ (count + 1) / period = count / period ∧
        (count + 1) % period = count % period + 1 := by
  have split : count + 1 = period * (count / period) + (count % period + 1) := by
    rw [← Nat.add_assoc, Nat.div_add_mod]
  have less := Nat.mod_lt count positive
  rcases Nat.lt_or_ge (count % period + 1) period with inside | full
  · refine .inr ⟨inside, ?_, ?_⟩
    · rw [split, Nat.mul_add_div positive, Nat.div_eq_of_lt inside, Nat.add_zero]
    · rw [split, Nat.mul_add_mod, Nat.mod_eq_of_lt inside]
  · have equal : count % period + 1 = period := by omega
    refine .inl ⟨equal, ?_, ?_⟩
    · rw [split, equal, Nat.mul_add_div positive, Nat.div_self positive]
    · rw [split, equal, Nat.mul_add_mod, Nat.mod_self]

/-- **One tick of the law.** -/
theorem SchedEnv.Climbed.tick {threshold start first count : Nat} {env : SchedEnv}
    (climbed : env.Climbed threshold start first count) (word : threshold + 1 < 2 ^ 32) :
    (env.ticked threshold).Climbed threshold start first (count + 1) := by
  obtain ⟨priority, counter⟩ := climbed
  have period := succ_div_mod (count + first) (threshold + 2) (by omega)
  rw [Nat.add_right_comm count first 1] at period
  unfold SchedEnv.Climbed SchedEnv.ticked
  by_cases top : env.priority = 0
  · rw [if_pos top]
    refine ⟨?_, fun below => absurd top below⟩
    rcases period with ⟨-, next, -⟩ | ⟨-, next, -⟩ <;> omega
  · rw [if_neg top]
    have counter := counter top
    rcases period with ⟨full, next, rest⟩ | ⟨inside, next, rest⟩
    · rw [if_pos (by omega), next, rest]
      refine ⟨?_, fun _ => rfl⟩
      change env.priority - 1 = _
      omega
    · rw [if_neg (by omega), next, rest]
      refine ⟨priority, fun _ => ?_⟩
      change (env.nTicks + 1) % 2 ^ 32 = _
      rw [counter, Nat.mod_eq_of_lt (by omega)]

namespace Scheduler

variable {sizeofEnv : Nat} {sched after : Scheduler sizeofEnv} {contents : QueueName → List Nat}
  {loose adding : List Nat} {level env : Nat} {front back : List Nat}

/-- The environments that the inner loop of `clock_interrupt_handler` meets. -/
def metFrom : Nat → Option Nat → Scheduler sizeofEnv → List Nat
  | rounds + 1, some env, sched =>
      env :: (match sched.tickEnv env with
        | .ok after => metFrom rounds (sched.queues.next env) after
        | .error _ => [])
  | _, _, _ => []

/-- The environments that `clock_interrupt_handler` meets in the levels below a level. -/
def metBelow (sched : Scheduler sizeofEnv) : Nat → List Nat
  | 0 => []
  | level + 1 =>
      sched.metBelow level ++
        match tickLevels (List.range level) sched with
        | .ok middle => metFrom (nenv sizeofEnv) (middle.queue (.ready level)).first middle
        | .error _ => []

/-- The inner loop meets the rest of a level. -/
theorem Placed.metFrom (placed : sched.Placed contents loose) {rounds : Nat}
    (split : contents (.ready level) = front ++ back) (fuel : back.length ≤ rounds) :
    metFrom rounds back.head? sched = back := by
  induction back generalizing sched contents front rounds with
  | nil => cases rounds <;> rfl
  | cons env back ih =>
      obtain _ | rounds := rounds
      · simp at fuel
      obtain ⟨middle, contents₁, front₁, visited, placed₁, split₁, -⟩ :=
        placed.tickEnv split
      have rest := ih placed₁ split₁ (by simpa using fuel)
      unfold Scheduler.metFrom
      dsimp only [List.head?_cons]
      rw [placed.next_eq split, visited]
      exact congrArg _ rest

/-- The loops meet what is in the queues before the tick. -/
theorem Placed.metBelow (placed : sched.Placed contents loose) {levels : Nat}
    (le : levels ≤ sched.numOfReadyQueues) :
    sched.metBelow levels = readyBelow contents levels := by
  induction levels with
  | zero => rfl
  | succ level ih =>
      obtain ⟨middle, contents₁, visited, placed₁, done⟩ :=
        placed.tickLevels (Nat.le_of_succ_le le)
      have same : contents₁ (.ready level) = contents (.ready level) :=
        done.others _ fun lower below equal => by cases equal; omega
      have whole : contents₁ (.ready level) = [] ++ contents₁ (.ready level) := rfl
      have rest := placed₁.metFrom whole (placed₁.length_le (.ready level))
      unfold Scheduler.metBelow
      rw [ih (Nat.le_of_succ_le le), visited]
      dsimp only
      rw [placed₁.first_eq, rest, same]
      unfold readyBelow
      rw [List.range_succ, List.flatMap_append, List.flatMap_singleton]

theorem Placed.readyBelow_nodup (placed : sched.Placed contents loose) (levels : Nat) :
    (readyBelow contents levels).Nodup := by
  rw [readyBelow, List.nodup_flatMap]
  refine ⟨fun level _ => (placed.holds.represents (.ready level)).nodup, ?_⟩
  refine List.nodup_range.imp fun {level other} different => ?_
  refine placed.holds.disjoint (.ready level) (.ready other) ?_
  rintro ⟨⟩
  exact different rfl

theorem Arranged.mem_readyBelow (arranged : sched.Arranged contents adding)
    (ready : (sched.envs env).envStatus = .ready) :
    env ∈ readyBelow contents sched.numOfReadyQueues := by
  have member := arranged.mem_ready ready
  exact List.mem_flatMap.mpr
    ⟨_, List.mem_range.mpr (arranged.placed.level_lt member), member⟩

/-- **A tick meets every ready environment once.** -/
theorem Arranged.count_met (arranged : sched.Arranged contents adding)
    (ready : (sched.envs env).envStatus = .ready) :
    (sched.metBelow sched.numOfReadyQueues).count env = 1 := by
  rw [arranged.placed.metBelow (Nat.le_refl _)]
  exact List.count_eq_one_of_mem (arranged.placed.readyBelow_nodup _)
    (arranged.mem_readyBelow ready)

/-- What `clock_interrupt_handler` makes of an environment that is ready before and after it. -/
theorem Settled.ticked (settled : sched.Settled contents adding)
    (method : sched.schedulerMethod = .prirr)
    (called : sched.clockInterruptHandler = .ok after)
    (ready : (sched.envs env).envStatus = .ready) (ready' : (after.envs env).envStatus = .ready) :
    after.envs env = (sched.envs env).ticked sched.starvationThreshold := by
  obtain ⟨middle, contents', visited, promoted, settled', -, -⟩ := settled.promoteStarved
  obtain ⟨middle', contents₁, ticks, -, visits⟩ := settled.placed.tickLevels (Nat.le_refl _)
  have same : middle' = middle := by
    have whole := promoted
    unfold Scheduler.promoteStarved at whole
    rw [method] at whole
    exact Except.ok.inj (ticks.symm.trans whole)
  subst same
  have value := visits.ticked env (settled.mem_readyBelow ready)
  unfold Scheduler.clockInterruptHandler at called
  simp only [promoted, bind, Except.bind] at called
  cases running : middle'.proc with
  | none =>
      rw [running] at called
      obtain rfl := Except.ok.inj called
      exact value
  | some proc =>
      rw [running] at called
      have status : (middle'.envs env).envStatus = .ready := by
        rw [value, SchedEnv.ticked_status, ready]
      exact (settled'.yield_undisturbed called env status ready').trans value

end Scheduler

namespace SchedMachine

open Scheduler

variable {sizeofEnv : Nat} {machine before middle after : SchedMachine sizeofEnv}
  {call : SchedCall} {env count : Nat}

/-- The call is not `env_set_priority` on the environment. -/
def SparesPriority (machine : SchedMachine sizeofEnv) (env : Nat) : SchedCall → Prop
  | .envSetPriority envID _ => machine.sched.envid2env envID ≠ some (some env)
  | _ => True

/-- An environment is in a ready queue before and after each of some calls, which count clock
ticks. The policy stays the same, and nobody sets the priority of the environment. -/
inductive StaysReady (env : Nat) (before : SchedMachine sizeofEnv) :
    Nat → SchedMachine sizeofEnv → Prop
  | start (ready : (before.sched.envs env).envStatus = .ready) : StaysReady env before 0 before
  | call {count : Nat} {middle after : SchedMachine sizeofEnv} {call : SchedCall}
      (earlier : StaysReady env before count middle) (enabled : middle.Enabled call)
      (performed : middle.perform call = .ok after)
      (ready : (after.sched.envs env).envStatus = .ready)
      (policy : SamePolicy middle.sched after.sched) (spares : middle.SparesPriority env call) :
      StaysReady env before (count + call.ticks) after

/-- **A call without a tick leaves an environment alone that stays ready.** -/
theorem Settled.envs_of_perform (settled : machine.Settled) (enabled : machine.Enabled call)
    (quiet : call.ticks = 0) (spares : machine.SparesPriority env call)
    (performed : machine.perform call = .ok after)
    (ready : (machine.sched.envs env).envStatus = .ready)
    (ready' : (after.sched.envs env).envStatus = .ready) :
    after.sched.envs env = machine.sched.envs env := by
  obtain ⟨contents, settled⟩ := settled
  have lifted {adding : List Nat} {result : Except SchedStop (Scheduler sizeofEnv)}
      (undisturbed : ∀ sched, result = .ok sched → machine.sched.Undisturbed sched)
      (performed : lift ⟨machine.sched, adding⟩ result = .ok after) :
      after.sched.envs env = machine.sched.envs env := by
    obtain ⟨sched, returned, rest⟩ := bind_eq_ok.mp performed
    obtain rfl := Except.ok.inj rest
    exact undisturbed sched returned env ready ready'
  cases call with
  | envCreate =>
      unfold SchedMachine.perform at performed
      dsimp only at performed
      cases created : machine.sched.envCreate with
      | none =>
          rw [created] at performed
          obtain rfl := Except.ok.inj performed
          rfl
      | some result =>
          rw [created] at performed
          obtain rfl := Except.ok.inj performed
          obtain ⟨slot, -, rfl⟩ := Option.map_eq_some_iff.mp created
          have withdraws : machine.sched.Withdraws ((machine.sched.setEnv slot
              { machine.sched.envs slot with
                envId := nextEnvId sizeofEnv (machine.sched.envs slot).envId slot
                envStatus := .new }).removeFromQueue .free slot) :=
            .of_update .new rfl (by decide) rfl
          exact withdraws.undisturbed env ready ready'
  | schedNewEnv slot =>
      refine lifted (fun sched returned => ?_) performed
      obtain rfl := Except.ok.inj returned
      exact (Withdraws.of_update .new rfl (by decide) rfl).undisturbed
  | schedRunEnv envId => exact lifted (fun _ => runFrom_undisturbed) performed
  | schedRunAll => exact lifted (fun _ => settled.schedRunAll_undisturbed) performed
  | poll => exact lifted (fun _ called => (withdraws_of_dispatch called).undisturbed) performed
  | yield => exact lifted (fun _ => settled.yield_undisturbed) performed
  | clockInterrupt => cases quiet
  | sleep chan => exact lifted (fun _ => sleep_undisturbed) performed
  | wakeupOne chan =>
      refine lifted (fun sched called => ?_) performed
      exact (settled.wakeupOne_admits called).undisturbed (.of_envs rfl)
  | wakeupAll chan =>
      refine lifted (fun sched called => ?_) performed
      exact (settled.wakeupAll_admits called).undisturbed (.of_envs rfl)
  | envSetPriority envID priority =>
      obtain ⟨sched, called, rest⟩ := bind_eq_ok.mp performed
      obtain rfl := Except.ok.inj rest
      exact envSetPriority_envs called spares
  | envExit => exact lifted (fun _ => settled.envExit_undisturbed) performed
  | schedInitRR =>
      obtain rfl := Except.ok.inj performed
      rfl
  | schedInitPRIRR numOfPriorities starvThresh =>
      obtain rfl := Except.ok.inj performed
      rfl
  | schedSetStarvThresh starvThresh =>
      obtain rfl := Except.ok.inj performed
      rfl

/-- A clock tick visits an environment that stays ready. -/
theorem Settled.ticked_of_perform (settled : machine.Settled)
    (method : machine.sched.schedulerMethod = .prirr)
    (performed : machine.perform .clockInterrupt = .ok after)
    (ready : (machine.sched.envs env).envStatus = .ready)
    (ready' : (after.sched.envs env).envStatus = .ready) :
    after.sched.envs env =
      (machine.sched.envs env).ticked machine.sched.starvationThreshold := by
  obtain ⟨contents, settled⟩ := settled
  obtain ⟨sched, called, rest⟩ := bind_eq_ok.mp performed
  obtain rfl := Except.ok.inj rest
  exact settled.ticked method called ready ready'

/-- The states of the calls are settled, and the policy is the same in all of them. -/
theorem StaysReady.settled (stays : StaysReady env before count after)
    (settled : before.Settled) : after.Settled ∧ (after.sched.envs env).envStatus = .ready ∧
      SamePolicy before.sched after.sched := by
  induction stays with
  | start ready => exact ⟨settled, ready, .refl _⟩
  | call earlier enabled performed ready policy spares ih =>
      exact ⟨((ih.1.perform enabled).of_ok performed).1, ready, ih.2.2.trans policy⟩

/-- An environment that stays ready climbs by the law. -/
theorem StaysReady.climbed (stays : StaysReady env before count after) (settled : before.Settled)
    (method : before.sched.schedulerMethod = .prirr)
    (counted : (before.sched.envs env).nTicks ≤ before.sched.starvationThreshold + 1)
    (word : before.sched.starvationThreshold + 1 < 2 ^ 32) :
    (after.sched.envs env).Climbed before.sched.starvationThreshold
      (before.sched.envs env).priority (before.sched.envs env).nTicks count := by
  induction stays with
  | start ready => exact SchedEnv.climbed_zero counted
  | @call count middle after call earlier enabled performed ready policy spares ih =>
      obtain ⟨settled', ready', same⟩ := earlier.settled settled
      by_cases clock : call = .clockInterrupt
      · subst clock
        rw [settled'.ticked_of_perform (same.method.trans method) performed ready' ready,
          same.threshold]
        exact ih.tick word
      · have quiet : call.ticks = 0 := by
          cases call with
          | clockInterrupt => exact absurd rfl clock
          | _ => rfl
        rw [settled'.envs_of_perform enabled quiet spares performed ready' ready, quiet]
        exact ih

/-- **The law of promotion.** Under the priority policy, a clock tick meets every ready environment
exactly once. An environment that stays ready over some ticks has climbed one level for every
`starvation_threshold + 2` of them, those it had counted before included, and is in the queue of
its priority. -/
theorem promotion_law (settled : before.Settled)
    (method : before.sched.schedulerMethod = .prirr) :
    (∀ env, (before.sched.envs env).envStatus = .ready →
      (before.sched.metBelow before.sched.numOfReadyQueues).count env = 1) ∧
    ∀ env count after, StaysReady env before count after →
      (before.sched.envs env).nTicks ≤ before.sched.starvationThreshold + 1 →
      before.sched.starvationThreshold < 2 ^ 32 - 1 →
        (after.sched.envs env).priority = (before.sched.envs env).priority -
            (count + (before.sched.envs env).nTicks) / (before.sched.starvationThreshold + 2) ∧
          ∃ contents, after.sched.Settled contents after.adding ∧
            env ∈ contents (.ready (after.sched.envs env).priority) := by
  constructor
  · intro env ready
    obtain ⟨contents, settled⟩ := settled
    exact settled.count_met ready
  · intro env count after stays counted word
    obtain ⟨⟨contents, settled'⟩, ready, -⟩ := stays.settled settled
    exact ⟨(stays.climbed settled method counted (by omega)).1, contents, settled',
      settled'.mem_ready ready⟩

/-- An environment of the level 2 that has counted two ticks over a threshold of one. -/
theorem promotion_law_tick : ∃ before after : SchedMachine 1480,
    StaysReady 1 before 1 after ∧
      (before.sched.metBelow before.sched.numOfReadyQueues).count 1 = 1 ∧
      (after.sched.envs 1).priority = 2 - (1 + 2) / (1 + 2) := by
  have found : ((follow (fun _ _ => True) (boot 1480) [.schedInitPRIRR 3 1, .envCreate,
      .schedNewEnv 0, .envCreate, .envSetPriority (firstEnvId 1480 1) 2, .schedNewEnv 1,
      .schedRunAll, .clockInterrupt, .clockInterrupt]).any fun before =>
        decide ((before.sched.envs 1).envStatus = .ready ∧ (before.sched.envs 1).priority = 2 ∧
          (before.sched.envs 1).nTicks = 2 ∧ before.sched.starvationThreshold = 1 ∧
            before.sched.schedulerMethod = .prirr) &&
          Returns (before.perform .clockInterrupt) fun after =>
            decide ((after.sched.envs 1).envStatus = .ready ∧
              after.sched.schedulerMethod = before.sched.schedulerMethod ∧
                after.sched.numOfReadyQueues = before.sched.numOfReadyQueues ∧
                  after.sched.starvationThreshold = before.sched.starvationThreshold)) = true := by
    decide +kernel
  obtain ⟨before, followed, checks⟩ := (Option.any_eq_true ..).mp found
  rw [Bool.and_eq_true, decide_eq_true_eq] at checks
  obtain ⟨⟨ready, priority, counted, threshold, method⟩, returns⟩ := checks
  obtain ⟨after, performed, kept⟩ := Returns.exists returns
  obtain ⟨ready', same⟩ := of_decide_eq_true kept
  have settled := settled_of_run (run_of_follow .refl _ followed)
  have enabled : before.Enabled .clockInterrupt := trivial
  have stays : StaysReady 1 before 1 after :=
    .call (.start ready) enabled performed ready' ⟨same.1, same.2.1, same.2.2⟩ trivial
  obtain ⟨met, law⟩ := promotion_law settled method
  have climbed := (law 1 1 after stays (by omega) (by omega)).1
  rw [priority, counted, threshold] at climbed
  exact ⟨before, after, stays, met 1 ready, climbed⟩

end SchedMachine

end FosKernel
