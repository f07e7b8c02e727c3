import FosKernel.Cpu.Placement

/-!
# The state between two calls

Between two calls every environment is in one queue, on the CPU, or created and not
yet handed to the scheduler. Where a process has switched to the scheduler, the process
may still be outside the queues.
-/

namespace FosKernel

namespace Scheduler

variable {sizeofEnv : Nat} {sched after : Scheduler sizeofEnv} {contents : QueueName → List Nat}
  {adding : List Nat} {env : Nat}

/-- Environments that are created and not yet in the NEW queue. -/
def Added (sched : Scheduler sizeofEnv) (contents : QueueName → List Nat) (adding : List Nat) :
    Prop :=
  ∀ env ∈ adding, Outside contents env ∧ (sched.envs env).envStatus = .new

/-- Every environment is in one queue, on the CPU or new. -/
structure Arranged (sched : Scheduler sizeofEnv) (contents : QueueName → List Nat)
    (adding : List Nat) : Prop where
  placed : sched.Placed contents (sched.proc.toList ++ adding)
  running : ∀ env, sched.proc = some env → Outside contents env ∧
    (sched.envs env).envStatus = .running ∧ (sched.envs env).priority < sched.numOfReadyQueues
  added : sched.Added contents adding

/-- Between two calls. While the scheduler is stopped, nobody runs, is ready or waits. -/
structure Settled (sched : Scheduler sizeofEnv) (contents : QueueName → List Nat)
    (adding : List Nat) : Prop extends sched.Arranged contents adding where
  stopped : sched.started = false → sched.proc = none ∧
    ∀ env, (sched.envs env).envStatus ≠ .ready ∧ (sched.envs env).envStatus ≠ .blocked

/-- One more environment is outside the queues. -/
structure Loosened (sched : Scheduler sizeofEnv) (contents : QueueName → List Nat)
    (adding : List Nat) (env : Nat) : Prop where
  placed : sched.Placed contents (env :: (sched.proc.toList ++ adding))
  outside : Outside contents env
  running : ∀ other, sched.proc = some other → other ≠ env ∧ Outside contents other ∧
    (sched.envs other).envStatus = .running ∧
      (sched.envs other).priority < sched.numOfReadyQueues
  added : ∀ other ∈ adding, other ≠ env ∧ Outside contents other ∧
    (sched.envs other).envStatus = .new

/-- Where the scheduler looks for the next environment. -/
structure Switching (sched : Scheduler sizeofEnv) (contents : QueueName → List Nat)
    (adding : List Nat) : Prop where
  placed : sched.Placed contents (sched.proc.toList ++ adding)
  current : ∀ env, sched.proc = some env → Outside contents env ∧
    (sched.envs env).envStatus = .ready ∧ (sched.envs env).priority < sched.numOfReadyQueues
  added : sched.Added contents adding
  started : sched.started = true

/-- What dispatching does to an environment. -/
def Dispatched (value value' : SchedEnv) : Prop :=
  value' = value ∨ value.envStatus = .ready ∧ value' = { value with envStatus := .running }

/-- The parts of the state that stay while the scheduler runs. -/
structure SamePolicy (sched after : Scheduler sizeofEnv) : Prop where
  method : after.schedulerMethod = sched.schedulerMethod
  levels : after.numOfReadyQueues = sched.numOfReadyQueues
  threshold : after.starvationThreshold = sched.starvationThreshold

/-- Only the queues differ. -/
def OnlyQueues (sched after : Scheduler sizeofEnv) : Prop :=
  after = { sched with queues := after.queues }

theorem OnlyQueues.policy (same : OnlyQueues sched after) : SamePolicy sched after := by
  rw [same]
  exact ⟨rfl, rfl, rfl⟩

theorem OnlyQueues.refl (sched : Scheduler sizeofEnv) : OnlyQueues sched sched := rfl

theorem OnlyQueues.enqueue (same : OnlyQueues sched after) (name : QueueName) (env : Nat) :
    OnlyQueues sched (after.enqueue name env) := by
  rw [same]
  rfl

theorem OnlyQueues.removeFromQueue (same : OnlyQueues sched after) (name : QueueName) (env : Nat) :
    OnlyQueues sched (after.removeFromQueue name env) := by
  rw [same]
  rfl

theorem SamePolicy.refl (sched : Scheduler sizeofEnv) : SamePolicy sched sched :=
    ⟨rfl, rfl, rfl⟩

theorem SamePolicy.trans {middle : Scheduler sizeofEnv} (first : SamePolicy sched middle)
    (second : SamePolicy middle after) : SamePolicy sched after :=
  ⟨second.method.trans first.method, second.levels.trans first.levels,
    second.threshold.trans first.threshold⟩

/-- New environments are not touched by an operation on others. -/
theorem Added.congr {contents' : QueueName → List Nat} (added : sched.Added contents adding)
    (outside : ∀ env, Outside contents env → (sched.envs env).envStatus = .new →
      Outside contents' env ∧ (after.envs env).envStatus = .new) : after.Added contents' adding :=
  fun env member => outside env (added env member).1 (added env member).2

/-- The process that gave up the CPU enters the ready queue of its priority. -/
theorem Switching.enqueueCurrent (switching : sched.Switching contents adding) :
    ∃ middle contents', sched.enqueueCurrent = .ok middle ∧
      OnlyQueues sched middle ∧ middle.Placed contents' adding ∧
        middle.Added contents' adding ∧
          ∀ env, sched.proc = some env → ∃ level, env ∈ contents' (.ready level) := by
  unfold Scheduler.enqueueCurrent
  cases on : sched.proc with
  | none =>
      refine ⟨sched, contents, rfl, rfl, ?_, switching.added, nofun⟩
      have placed := switching.placed
      rwa [on] at placed
  | some curEnv =>
      obtain ⟨outside, ready, level⟩ := switching.current curEnv on
      have placed := switching.placed
      rw [on] at placed
      have entered := placed.enqueue (.ready (sched.envs curEnv).priority) outside
        (placed.ids curEnv (by rw [ready]; nofun)).1 ⟨ready, rfl, level⟩
      refine ⟨_, _, ?_, (OnlyQueues.refl sched).enqueue _ curEnv, entered, ?_, ?_⟩
      · unfold readyQueue
        dsimp only
        rw [if_pos level]
        rfl
      · refine switching.added.congr fun env out new => ⟨fun name listed => ?_, new⟩
        rcases SharedLists.mem_insert.mp listed with old | ⟨rfl, -⟩
        · exact out name old
        · rw [ready] at new
          cases new
      · intro env same
        obtain rfl := Option.some.inj same
        exact ⟨_, SharedLists.mem_insert.mpr (.inr ⟨rfl, rfl⟩)⟩

/-- Round robin is the priority policy with one level, as far as the queues are concerned. -/
theorem Switching.fosSchedulerRR (switching : sched.Switching contents adding)
    (rr : sched.schedulerMethod = .rr) :
    sched.fosSchedulerRR = do
      let middle ← sched.enqueueCurrent
      return middle.dequeue (.ready 0) := by
  have single := switching.placed.single rr
  unfold Scheduler.fosSchedulerRR Scheduler.enqueueCurrent readyQueue
  rw [single]
  cases on : sched.proc with
  | none => rfl
  | some curEnv =>
      have level := (switching.current curEnv on).2.2
      rw [single] at level
      obtain zero : (sched.envs curEnv).priority = 0 := by omega
      dsimp only
      rw [zero]
      rfl

/-- What the policies leave: nobody is ready, or one environment has left its ready queue. -/
def Chosen (sched : Scheduler sizeofEnv) (contents : QueueName → List Nat) (adding : List Nat) :
    Option Nat → Prop
  | none => sched.Placed contents adding ∧ ∀ level, contents (.ready level) = []
  | some env => sched.Placed contents (env :: adding) ∧ Outside contents env ∧
      (sched.envs env).envStatus = .ready ∧ (sched.envs env).priority < sched.numOfReadyQueues

/-- An environment at the end of a ready queue is chosen. -/
theorem Placed.chosen (placed : sched.Placed contents adding) {level : Nat} {front : List Nat}
    (split : contents (.ready level) = front ++ [env]) :
    Chosen (sched.removeFromQueue (.ready level) env)
      (Function.update contents (.ready level) (front ++ [])) adding (some env) := by
  obtain ⟨ready, priority, below⟩ := placed.suits (.ready level) env (by simp [split])
  exact ⟨placed.remove split, placed.holds.removed split, ready, priority ▸ below⟩

/-- New environments stay outside when a ready one is removed. -/
theorem Added.remove (added : sched.Added contents adding)
    (placed : sched.Placed contents adding) {name : QueueName} {front back : List Nat}
    (split : contents name = front ++ env :: back) :
    (sched.removeFromQueue name env).Added (Function.update contents name (front ++ back)) adding :=
  added.congr fun _ outside new =>
    ⟨fun other listed => outside other ((placed.holds.mem_remove split).mp listed).1, new⟩

/-- What the entries of `sched_next` return. -/
theorem Switching.schedNext (switching : sched.Switching contents adding) :
    ∃ nextEnv middle contents', sched.schedNext = .ok (nextEnv, middle) ∧
      OnlyQueues sched middle ∧ Chosen middle contents' adding nextEnv ∧
        middle.Added contents' adding ∧ (nextEnv = none → sched.proc = none) := by
  obtain ⟨middle, contents', called, same, placed, added, current⟩ := switching.enqueueCurrent
  have idle : (∀ level, contents' (.ready level) = []) → sched.proc = none := by
    intro empty
    rcases on : sched.proc with _ | env
    · rfl
    · obtain ⟨level, member⟩ := current env on
      rw [empty level] at member
      cases member
  have levels : middle.numOfReadyQueues = sched.numOfReadyQueues := by rw [same]
  unfold Scheduler.schedNext
  cases method : sched.schedulerMethod with
  | rr =>
      dsimp only
      rw [switching.fosSchedulerRR method, called]
      rcases placed.dequeue_cases (.ready 0) with
        ⟨empty, dequeued⟩ | ⟨front, env, split, dequeued⟩
      · refine ⟨none, middle, contents', congrArg Except.ok dequeued, same, ?_⟩
        have nobody : ∀ level, contents' (.ready level) = [] := by
          intro level
          rw [List.eq_nil_iff_forall_not_mem]
          intro env member
          have below := placed.level_lt member
          rw [levels, switching.placed.single method] at below
          obtain rfl : level = 0 := by omega
          rw [empty] at member
          cases member
        exact ⟨⟨placed, nobody⟩, added, fun _ => idle nobody⟩
      · refine ⟨some env, _, _, congrArg Except.ok dequeued,
          same.removeFromQueue .., placed.chosen split, added.remove placed split, nofun⟩
  | prirr =>
      dsimp only
      unfold Scheduler.fosSchedulerPRIRR
      rw [called]
      change ∃ nextEnv after contents', Except.ok (ε := SchedStop) _ = _ ∧ _
      cases found : (List.range middle.numOfReadyQueues).find? fun i =>
          (middle.queue (.ready i)).size ≠ 0 with
      | none =>
          refine ⟨none, middle, contents', rfl, same, ?_⟩
          have nobody : ∀ level, contents' (.ready level) = [] := by
            intro level
            rw [List.eq_nil_iff_forall_not_mem]
            intro env member
            have below := List.mem_range.mpr (placed.level_lt member)
            have empty := List.find?_eq_none.mp found level below
            rw [placed.size_eq] at empty
            simp only [ne_eq, decide_not, Bool.not_eq_true', decide_eq_false_iff_not, not_not,
              List.length_eq_zero_iff] at empty
            rw [empty] at member
            cases member
          exact ⟨⟨placed, nobody⟩, added, fun _ => idle nobody⟩
      | some i =>
          have nonempty := List.find?_some found
          rw [placed.size_eq] at nonempty
          rcases placed.dequeue_cases (.ready i) with
            ⟨empty, -⟩ | ⟨front, env, split, dequeued⟩
          · rw [empty] at nonempty
            simp at nonempty
          · refine ⟨some env, _, _, congrArg Except.ok dequeued,
              same.removeFromQueue .., placed.chosen split, added.remove placed split, nofun⟩

/-- **A round of the scheduler.** It ends in a settled state, and an environment that was ready
may run now. -/
theorem Switching.dispatch (switching : sched.Switching contents adding) :
    ∃ after contents', sched.dispatch = .ok after ∧ after.Settled contents' adding ∧
      SamePolicy sched after ∧ ∀ env, Dispatched (sched.envs env) (after.envs env) := by
  obtain ⟨nextEnv, middle, contents', called, same, chosen, added, idle⟩ := switching.schedNext
  have envs : middle.envs = sched.envs := by rw [same]
  have policy := same.policy
  unfold Scheduler.dispatch
  rw [called]
  cases nextEnv with
  | some env =>
      obtain ⟨placed, outside, ready, level⟩ := chosen
      refine ⟨_, contents', rfl, ⟨⟨?_, ?_, ?_⟩, ?_⟩, ⟨policy.method, policy.levels,
        policy.threshold⟩, ?_⟩
      · exact (placed.setCpu (some env) middle.started).setOutside _ outside
          (placed.ids env (by rw [ready]; nofun))
      · intro env' current
        obtain rfl := Option.some.inj current
        rw [setEnv_self]
        exact ⟨outside, rfl, level⟩
      · refine fun new member => ⟨(added new member).1, ?_⟩
        have different : new ≠ env := by
          rintro rfl
          have fresh := (added new member).2
          rw [ready] at fresh
          cases fresh
        rw [setEnv_of_ne _ _ different]
        exact (added new member).2
      · intro stopped
        have started : middle.started = true := by
          rw [same]
          exact switching.started
        rw [show middle.started = false from stopped] at started
        cases started
      · intro other
        by_cases equal : other = env
        · subst equal
          rw [setEnv_self]
          exact .inr ⟨envs ▸ ready, by rw [← envs]⟩
        · rw [setEnv_of_ne _ _ equal]
          exact .inl (congrFun envs other)
  | none =>
      obtain ⟨placed, nobody⟩ := chosen
      have vacant : middle.proc = none := by
        rw [same]
        exact idle rfl
      dsimp only
      by_cases blocked : ((List.range (nenv sizeofEnv)).any fun i =>
          (middle.envs i).envStatus = .blocked) = true
      · refine ⟨middle, contents', ?_, ⟨⟨?_, ?_, added⟩, ?_⟩, policy, fun env => ?_⟩
        · exact congrArg Except.ok (if_pos blocked)
        · rw [vacant]
          exact placed
        · rw [vacant]
          nofun
        · intro stopped
          rw [same, switching.started] at stopped
          cases stopped
        · exact .inl (congrFun envs env)
      · refine ⟨middle.getIntoPrompt, contents', ?_,
          ⟨⟨?_, nofun, added⟩, fun _ => ⟨rfl, ?_⟩⟩,
          ⟨policy.method, policy.levels, policy.threshold⟩, fun env => ?_⟩
        · exact congrArg Except.ok (if_neg blocked)
        · exact placed.setCpu none false
        · intro env
          have unlisted : ∀ name, env ∈ contents' name →
              (middle.envs env).envStatus ≠ .ready := by
            intro name member ready
            have status := (placed.suits name env member).status
            rw [ready] at status
            cases name with
            | ready level => exact List.not_mem_nil (nobody level ▸ member)
            | _ => nomatch status
          refine ⟨fun ready => ?_, fun waiting => ?_⟩
          · rcases placed.covers env (placed.ids env (ready ▸ nofun)).1 with
              new | ⟨name, member⟩
            · have status := (added env new).2
              rw [show (middle.envs env).envStatus = .ready from ready] at status
              nomatch status
            · exact unlisted name member ready
          · exact blocked (List.any_eq_true.mpr ⟨env,
              List.mem_range.mpr (placed.ids env (waiting ▸ nofun)).1, decide_eq_true waiting⟩)
        · exact .inl (congrFun envs env)

/-- An environment leaves its queue. -/
theorem Arranged.loosen (arranged : sched.Arranged contents adding) {name : QueueName}
    {front back : List Nat} (split : contents name = front ++ env :: back) :
    (sched.removeFromQueue name env).Loosened (Function.update contents name (front ++ back))
      adding env where
  placed := arranged.placed.remove split
  outside := arranged.placed.holds.removed split
  running other on := by
    obtain ⟨outside, rest⟩ := arranged.running other on
    refine ⟨?_, fun other listed => outside other
      ((arranged.placed.holds.mem_remove split).mp listed).1, rest⟩
    rintro rfl
    exact outside name (by simp [split])
  added other member := by
    obtain ⟨outside, new⟩ := arranged.added other member
    refine ⟨?_, fun other listed => outside other
      ((arranged.placed.holds.mem_remove split).mp listed).1, new⟩
    rintro rfl
    exact outside name (by simp [split])

/-- The environment on the CPU leaves it. -/
theorem Arranged.vacate (arranged : sched.Arranged contents adding) (on : sched.proc = some env) :
    ({ sched with proc := none } : Scheduler sizeofEnv).Loosened contents adding env where
  placed := by
    have placed := arranged.placed
    rw [on] at placed
    exact placed.setCpu none sched.started
  outside := (arranged.running env on).1
  running := nofun
  added other member := by
    obtain ⟨outside, new⟩ := arranged.added other member
    refine ⟨?_, outside, new⟩
    rintro rfl
    rw [(arranged.running other on).2.1] at new
    nomatch new

/-- A new environment is taken over by the scheduler. -/
theorem Arranged.take (arranged : sched.Arranged contents adding) (member : env ∈ adding) :
    sched.Loosened contents (adding.filter (· ≠ env)) env where
  placed := by
    refine arranged.placed.mono fun other loose => ?_
    rw [List.mem_cons, List.mem_append, List.mem_filter]
    rcases List.mem_append.mp loose with on | new
    · exact .inr (.inl on)
    · by_cases same : other = env
      · exact .inl same
      · exact .inr (.inr ⟨new, decide_eq_true same⟩)
  outside := (arranged.added env member).1
  running other on := by
    obtain ⟨outside, running, level⟩ := arranged.running other on
    refine ⟨?_, outside, running, level⟩
    rintro rfl
    rw [(arranged.added other member).2] at running
    nomatch running
  added other left := by
    obtain ⟨inside, different⟩ := List.mem_filter.mp left
    exact ⟨of_decide_eq_true different, arranged.added other inside⟩

namespace Loosened

variable (loosened : sched.Loosened contents adding env)

include loosened

/-- The fields of the environment change. -/
theorem setEnv (value : SchedEnv)
    (id : env < nenv sizeofEnv ∧ value.envId = firstEnvId sizeofEnv env) :
    (sched.setEnv env value).Loosened contents adding env where
  placed := loosened.placed.setOutside value loosened.outside id
  outside := loosened.outside
  running other on := by
    have := loosened.running other on
    rwa [setEnv_of_ne _ _ this.1]
  added other member := by
    have := loosened.added other member
    rwa [setEnv_of_ne _ _ this.1]

/-- The environment enters a queue. -/
theorem enqueue (name : QueueName) (bound : env < nenv sizeofEnv)
    (suits : (sched.envs env).Suits sched.numOfReadyQueues name) :
    (sched.enqueue name env).Arranged (Function.update contents name (env :: contents name))
      adding where
  placed := loosened.placed.enqueue name loosened.outside bound suits
  running other on := by
    obtain ⟨different, outside, rest⟩ := loosened.running other on
    refine ⟨fun name listed => ?_, rest⟩
    rcases SharedLists.mem_insert.mp listed with old | ⟨rfl, -⟩
    · exact outside name old
    · exact different rfl
  added other member := by
    obtain ⟨different, outside, new⟩ := loosened.added other member
    refine ⟨fun name listed => ?_, new⟩
    rcases SharedLists.mem_insert.mp listed with old | ⟨rfl, -⟩
    · exact outside name old
    · exact different rfl

/-- The environment becomes ready. -/
theorem readied (alive : (sched.envs env).envStatus ≠ .free)
    (level : (sched.envs env).priority < sched.numOfReadyQueues) :
    (sched.readied env).Arranged (Function.update contents (.ready (sched.envs env).priority)
      (env :: contents (.ready (sched.envs env).priority))) adding := by
  have ready := loosened.setEnv (sched.envs env).readied (loosened.placed.ids env alive)
  refine ready.enqueue _ (loosened.placed.ids env alive).1 ?_
  rw [setEnv_self]
  exact ⟨rfl, rfl, level⟩

end Loosened

end Scheduler

end FosKernel
