import FosKernel.Conc.Channel

/-!
# Objects with a guard

Sleep locks and semaphores are used in the same way: one function sleeps as long
as a test of the data holds and then takes, the other one gives and wakes all
sleepers. What holds at every statement of these functions, in any order of
steps: the spinlocks are used correctly, no process sleeps on the channel while
the test fails, the blocked processes are those on the channel, and the data
stays related to the calls that have had their effect.
-/

namespace FosKernel

/-- The test, the two assignments, and whether giving comes before waking. -/
structure GuardedObject (σ : Type) where
  test : σ → Bool
  take : σ → σ
  give : σ → σ
  giveFirst : Bool

namespace GuardedObject

variable {ν σ : Type} (object : GuardedObject σ)

/-- The function that takes, from its loop on. -/
def fromTest : List (Statement σ) :=
  [.sleepWhile object.test, .assign object.take, .release .lk]

/-- The function that gives, behind its test of the queue. -/
def afterWake : List (Statement σ) :=
  if object.giveFirst then [.release .lk] else [.assign object.give, .release .lk]

/-- The function that gives, from its assignment on. -/
def fromGive : List (Statement σ) :=
  .assign object.give ::
    if object.giveFirst then .wakeIfQueued :: object.afterWake else [.release .lk]

/-- The two functions. -/
def body : ObjectEvent → List (Statement σ)
  | .take => .acquire .lk :: object.fromTest
  | .give =>
      .acquire .lk ::
        if object.giveFirst then object.fromGive else .wakeIfQueued :: object.afterWake

/-- The next statement of a process, in a call or in `yield`. -/
inductive Phase where
  | outside
  | yieldReady
  | yieldSched
  | yieldBack
  | testing
  | sleepQlock
  | sleepRelease
  | sleepBlock
  | sleepEnqueue
  | sleepSched
  | sleepBack
  | sleepLeave
  | taking
  | leaving (event : ObjectEvent)
  | giving
  | waking
  | wakeQlock
  | wakeSize
  | wakeRounds (count : Nat)
  | wakeLeave

namespace Phase

/-- The code left in a phase. -/
def code : Phase → List (Statement σ)
  | .outside => []
  | .yieldReady => yieldRest
  | .yieldSched => yieldRest.drop 1
  | .yieldBack => yieldRest.drop 2
  | .testing => object.fromTest
  | .sleepQlock => sleep ++ object.fromTest
  | .sleepRelease => sleep.drop 1 ++ object.fromTest
  | .sleepBlock => sleep.drop 2 ++ object.fromTest
  | .sleepEnqueue => sleep.drop 3 ++ object.fromTest
  | .sleepSched => sleep.drop 4 ++ object.fromTest
  | .sleepBack => sleep.drop 5 ++ object.fromTest
  | .sleepLeave => sleep.drop 6 ++ object.fromTest
  | .taking => object.fromTest.drop 1
  | .leaving _ => [.release .lk]
  | .giving => object.fromGive
  | .waking => .wakeIfQueued :: object.afterWake
  | .wakeQlock => wakeupAll ++ object.afterWake
  | .wakeSize => wakeupAll.drop 1 ++ object.afterWake
  | .wakeRounds count => .wakeRounds count :: wakeupAll.drop 2 ++ object.afterWake
  | .wakeLeave => wakeupAll.drop 2 ++ object.afterWake

/-- The spinlocks that are held in a phase. -/
def holding : Phase → Spinlock → Bool
  | .outside, _ => false
  | .yieldReady, lock | .yieldSched, lock | .yieldBack, lock | .sleepBlock, lock
  | .sleepEnqueue, lock | .sleepSched, lock | .sleepBack, lock => lock = .qlock
  | .testing, lock | .sleepQlock, lock | .taking, lock | .leaving _, lock | .giving, lock
  | .waking, lock | .wakeQlock, lock => lock = .lk
  | .sleepRelease, _ | .sleepLeave, _ | .wakeSize, _ | .wakeRounds _, _ | .wakeLeave, _ => true

/-- A process that does not run has called `sched`, from `yield` or from `sleep`. -/
def Parked : Phase → Prop
  | .yieldBack | .sleepBack => True
  | _ => False

/-- The process that runs has the status RUNNING. -/
def Awake : Phase → Prop
  | .yieldSched | .sleepEnqueue | .sleepSched => False
  | _ => True

/-- The process is blocked and not yet in the queue. -/
def Queueing : Phase → Prop
  | .sleepEnqueue => True
  | _ => False

/-- The call that a process is in. -/
def inCall : Phase → Option ObjectEvent
  | .outside | .yieldReady | .yieldSched | .yieldBack => none
  | .testing | .sleepQlock | .sleepRelease | .sleepBlock | .sleepEnqueue | .sleepSched
  | .sleepBack | .sleepLeave | .taking => some .take
  | .leaving event => some event
  | .giving | .waking | .wakeQlock | .wakeSize | .wakeRounds _ | .wakeLeave => some .give

/-- The call has made its assignment. -/
def assigned : Phase → Bool
  | .leaving _ => true
  | .waking | .wakeQlock | .wakeSize | .wakeRounds _ | .wakeLeave => object.giveFirst
  | _ => false

/-- The call that has made its assignment, and the one that has not. -/
def effect (at_ : Phase) : Option ObjectEvent := if at_.assigned object then at_.inCall else none

def pending (at_ : Phase) : Option ObjectEvent := if at_.assigned object then none else at_.inCall

end Phase

/-- No process sleeps while the test fails. -/
def Attended (cpu : Cpu ν σ) : Prop := cpu.queue = [] ∨ object.test cpu.data = true

/-- What holds of the object while the running process is in a phase. -/
def Phase.Fact (cpu : Cpu ν σ) : Phase → Prop
  | .outside | .yieldReady | .yieldSched | .yieldBack | .testing | .sleepBack | .sleepLeave =>
      object.Attended cpu
  | .sleepQlock | .sleepRelease | .sleepBlock | .sleepEnqueue | .sleepSched =>
      object.test cpu.data = true
  | .taking => object.test cpu.data = false ∧ cpu.queue = []
  | .leaving _ => cpu.queue = []
  | .giving => object.giveFirst = false → cpu.queue = []
  | .waking | .wakeQlock | .wakeSize => True
  | .wakeRounds count => count = cpu.queue.length
  | .wakeLeave => cpu.queue = []

/-- The status of a process and the queue agree with its phase. -/
structure Phase.Accounted (cpu : Cpu ν σ) (env : ν) (at_ : Phase) : Prop where
  running : cpu.status env = .running ↔ cpu.current = some env ∧ at_.Awake
  queued : env ∈ cpu.queue ↔ cpu.status env = .blocked ∧ ¬ at_.Queueing
  blocked : at_.Queueing → cpu.status env = .blocked

/-- Two phases of one call that differ in the code and the spinlocks. -/
structure Phase.Like (at_ other : Phase) : Prop where
  inCall : at_.inCall = other.inCall
  assigned : at_.assigned object = other.assigned object
  awake : at_.Awake ↔ other.Awake
  queueing : at_.Queueing ↔ other.Queueing

/-- The phase behind the first statement of a call, and behind the test of the queue. -/
def entered : ObjectEvent → Phase
  | .take => .testing
  | .give => if object.giveFirst then .giving else .waking

def woken : Phase := if object.giveFirst then .leaving .give else .giving

/-- The phase behind the assignment that gives. -/
def given : Phase := if object.giveFirst then .waking else .leaving .give

/-- The calls that have made their assignments. -/
def effects (cpu : Cpu ν σ) (phase : ν → Phase) : List (ObjectEvent × ν) :=
  (cpu.current.bind fun env =>
    ((phase env).effect object).map fun event => (event, env)).toList ++ returned cpu.history

variable {object}

@[simp] theorem entered_code (event : ObjectEvent) :
    object.body event = .acquire .lk :: (object.entered event).code object := by
  cases event with
  | take => rfl
  | give => by_cases first : object.giveFirst = true <;> simp [body, entered, first, Phase.code]

@[simp] theorem woken_code : object.woken.code object = object.afterWake := by
  by_cases first : object.giveFirst = true
  · simp [woken, afterWake, first, Phase.code]
  · simp [woken, afterWake, fromGive, first, Phase.code]

theorem given_code : Phase.giving.code object =
    .assign object.give :: object.given.code object := by
  by_cases first : object.giveFirst = true <;> simp [given, first, Phase.code, fromGive]

theorem entered_holding (event : ObjectEvent) (lock : Spinlock) :
    (object.entered event).holding lock = decide (lock = .lk) := by
  cases event with
  | take => rfl
  | give => by_cases first : object.giveFirst = true <;> simp [entered, first, Phase.holding]

theorem woken_holding (lock : Spinlock) : object.woken.holding lock = decide (lock = .lk) := by
  unfold woken
  split <;> rfl

theorem given_holding (lock : Spinlock) : object.given.holding lock = decide (lock = .lk) := by
  unfold given
  split <;> rfl

/-- A call has made no assignment behind its first statement. -/
theorem entered_like (object : GuardedObject σ) (event : ObjectEvent) :
    (object.entered event).inCall = some event ∧
    (object.entered event).assigned object = false ∧ (object.entered event).Awake ∧
      ¬ (object.entered event).Queueing := by
  cases event with
  | take => exact ⟨rfl, rfl, trivial, id⟩
  | give =>
      by_cases first : object.giveFirst = true <;>
        simp [entered, first, Phase.inCall, Phase.assigned, Phase.Awake, Phase.Queueing]

theorem woken_like (object : GuardedObject σ) : object.woken.Like object .waking := by
  by_cases first : object.giveFirst = true
  · refine ⟨?_, ?_, ?_, ?_⟩ <;>
      simp [woken, first, Phase.inCall, Phase.assigned, Phase.Awake, Phase.Queueing]
  · refine ⟨?_, ?_, ?_, ?_⟩ <;>
      simp [woken, first, Phase.inCall, Phase.assigned, Phase.Awake, Phase.Queueing]

/-- A call that gives has made its assignment behind it. -/
theorem given_like : object.given.inCall = some .give ∧ object.given.assigned object = true ∧
    object.given.Awake ∧ ¬ object.given.Queueing := by
  by_cases first : object.giveFirst = true <;>
    simp [given, first, Phase.inCall, Phase.assigned, Phase.Awake, Phase.Queueing]

theorem woken_fact {cpu : Cpu ν σ} (empty : cpu.queue = []) : object.woken.Fact object cpu := by
  unfold woken
  split
  · exact empty
  · exact fun _ => empty

theorem entered_fact {cpu : Cpu ν σ} {event : ObjectEvent} (attended : object.Attended cpu) :
    (object.entered event).Fact object cpu := by
  cases event with
  | take => exact attended
  | give => by_cases first : object.giveFirst = true <;> simp [entered, first, Phase.Fact]

theorem given_fact {before after : Cpu ν σ} (fact : Phase.giving.Fact object before)
    (queue : after.queue = before.queue := by rfl) : object.given.Fact object after := by
  by_cases first : object.giveFirst = true
  · simp [given, first, Phase.Fact]
  · simp only [Bool.not_eq_true] at first
    simp [given, first, Phase.Fact, queue, fact first]

/-- What holds in a phase depends on the queue and the data. -/
theorem Phase.Fact.congr {cpu next : Cpu ν σ} {at_ : Phase} (fact : at_.Fact object cpu)
    (queue : next.queue = cpu.queue) (data : next.data = cpu.data) : at_.Fact object next := by
  unfold Phase.Fact Attended at *
  rwa [queue, data]

theorem Phase.Accounted.congr {cpu next : Cpu ν σ} {env : ν} {at_ other : Phase}
    (accounted : other.Accounted cpu env) (status : next.status env = cpu.status env)
    (queue : next.queue = cpu.queue) (current : next.current = some env ↔ cpu.current = some env)
    (awake : at_.Awake ↔ other.Awake) (queueing : at_.Queueing ↔ other.Queueing) :
    at_.Accounted next env where
  running := by rw [status, current, awake, accounted.running]
  queued := by rw [queue, status, queueing, accounted.queued]
  blocked soon := status.trans (accounted.blocked (queueing.mp soon))

/-- Calls that a discipline allows stay allowed when other processes act, and the assignments
they make keep a relation between the data and the calls. -/
structure Disciplined (object : GuardedObject σ)
    (may : List (ObjectEvent × ν) → ν → ObjectEvent → Prop)
    (related : σ → List (ObjectEvent × ν) → Prop) : Prop where
  others : ∀ {calls env event}, may calls env event → ∀ other act, other ≠ env →
    may ((act, other) :: calls) env event
  take : ∀ {data calls env}, related data calls → object.test data = false →
    may calls env .take →
    related (object.take data) ((.take, env) :: calls)
  give : ∀ {data calls env}, related data calls → may calls env .give →
    related (object.give data) ((.give, env) :: calls)

/-- Every process is in a phase; those that do not run are parked; the spinlocks that are held
and the state of the object are those of the running process's phase. -/
structure Invariant [DecidableEq ν] (object : GuardedObject σ)
    (may : List (ObjectEvent × ν) → ν → ObjectEvent → Prop)
    (related : σ → List (ObjectEvent × ν) → Prop) (cpu : Cpu ν σ) (phase : ν → Phase) :
    Prop where
  code : ∀ env, cpu.code env = (phase env).code object
  parked : ∀ env, cpu.current ≠ some env → (phase env).Parked
  running : ∀ env, cpu.current = some env →
    cpu.holding = (phase env).holding ∧ (phase env).Fact object cpu
  idle : cpu.current = none → cpu.holding .lk = false ∧ object.Attended cpu
  accounted : ∀ env, (phase env).Accounted cpu env
  nodup : cpu.queue.Nodup
  inCall : ∀ env, calling cpu.history env = (phase env).inCall
  pending : ∀ env event, (phase env).pending object = some event →
    may (object.effects cpu phase) env event
  related : related cpu.data (object.effects cpu phase)

section Steps

variable [DecidableEq ν] {may : List (ObjectEvent × ν) → ν → ObjectEvent → Prop}
  {related : σ → List (ObjectEvent × ν) → Prop} {cpu next : Cpu ν σ} {phase : ν → Phase}
  {env : ν}

omit [DecidableEq ν] in
/-- The assignments of the calls, with a running process. -/
theorem effects_of_running (env : ν) (running : cpu.current = some env) (phase : ν → Phase) :
    object.effects cpu phase =
      (((phase env).effect object).map fun event => (event, env)).toList ++
        returned cpu.history := by
  rw [effects, running]
  rfl

omit [DecidableEq ν] in
/-- A process in a phase without an assignment leaves the calls that have returned. -/
theorem effects_of_unassigned (phase : ν → Phase)
    (unassigned : ∀ env, cpu.current = some env → (phase env).assigned object = false) :
    object.effects cpu phase = returned cpu.history := by
  cases current : cpu.current with
  | none =>
      rw [effects, current]
      rfl
  | some env =>
      rw [effects_of_running env current, Phase.effect, unassigned env current]
      rfl

/-- No spinlock is held outside calls only. -/
theorem Phase.eq_outside {at_ : Phase} (unlocked : ∀ lock, at_.holding lock = false) :
    at_ = .outside := by
  have lk := unlocked .lk
  have qlock := unlocked .qlock
  cases at_ with
  | outside => rfl
  | _ => simp [Phase.holding] at lk qlock

theorem Phase.awake_of_parked {at_ : Phase} (parked : at_.Parked) :
    at_.Awake ∧ ¬ at_.Queueing := by
  cases at_ with
  | yieldBack | sleepBack => exact ⟨trivial, id⟩
  | _ => exact parked.elim

theorem Phase.unassigned_of_parked {at_ : Phase} (parked : at_.Parked) :
    at_.assigned object = false := by
  cases at_ with
  | yieldBack | sleepBack => rfl
  | _ => exact parked.elim

/-- While no spinlock is held, the running process is outside. -/
theorem Invariant.outside (invariant : object.Invariant may related cpu phase)
    (unlocked : cpu.Unlocked) (running : cpu.current = some env) : phase env = .outside :=
  Phase.eq_outside fun lock => by
    rw [← (invariant.running env running).1]
    exact unlocked lock

/-- In every reachable state, no process sleeps while the test fails unless a spinlock is held. -/
theorem Invariant.attended (invariant : object.Invariant may related cpu phase)
    (unlocked : cpu.Unlocked) : object.Attended cpu := by
  cases current : cpu.current with
  | none => exact (invariant.idle current).2
  | some env =>
      have fact := (invariant.running env current).2
      rw [invariant.outside unlocked current] at fact
      exact fact

/-- While no spinlock is held, the statuses agree with the CPU and the queue. -/
theorem Invariant.settled (invariant : object.Invariant may related cpu phase)
    (unlocked : cpu.Unlocked) : cpu.Settled := by
  intro env
  obtain ⟨running, queued, -⟩ := invariant.accounted env
  by_cases current : cpu.current = some env
  · rw [invariant.outside unlocked current] at running queued
    exact ⟨running.trans (and_iff_left trivial), (queued.trans (and_iff_left id)).symm⟩
  · have parked := invariant.parked env current
    have awake := Phase.awake_of_parked parked
    exact ⟨running.trans (and_iff_left awake.1), (queued.trans (and_iff_left awake.2)).symm⟩

/-- While no spinlock is held, only processes that sleep are in calls. -/
theorem Invariant.waiting (invariant : object.Invariant may related cpu phase)
    (unlocked : cpu.Unlocked) {event : ObjectEvent}
    (called : calling cpu.history env = some event) :
    event = .take ∧ may (object.effects cpu phase) env .take := by
  have inCall := (invariant.inCall env).symm.trans called
  have away : cpu.current ≠ some env := fun running => by
    rw [invariant.outside unlocked running] at inCall
    cases inCall
  have parked := invariant.parked env away
  have point : phase env = .sleepBack := by
    cases point : phase env with
    | sleepBack => rfl
    | yieldBack =>
        rw [point] at inCall
        cases inCall
    | _ =>
        rw [point] at parked
        exact parked.elim
  have pending : (phase env).pending object = some .take := by
    rw [point]
    rfl
  rw [point] at inCall
  exact ⟨(Option.some.inj inCall).symm, invariant.pending env .take pending⟩

/-- A call whose effect comes before its return is that of the running process, which holds the
spinlock of the object. -/
theorem Invariant.effective (invariant : object.Invariant may related cpu phase) :
    cpu.Effective (object.effects cpu phase) := by
  cases current : cpu.current with
  | none => exact .inl (effects_of_unassigned phase fun env now => by cases current.symm.trans now)
  | some env =>
      cases assigned : (phase env).assigned object with
      | false =>
          refine .inl (effects_of_unassigned phase fun other now => ?_)
          obtain rfl := Option.some.inj (current.symm.trans now)
          exact assigned
      | true =>
          have holding := congrFun (invariant.running env current).1 .lk
          have inCall := invariant.inCall env
          rw [Cpu.Effective, effects_of_running env current, Phase.effect, if_pos assigned]
          cases point : phase env with
          | leaving | waking | wakeQlock | wakeSize | wakeRounds | wakeLeave =>
              rw [point] at holding inCall
              exact .inr ⟨holding, _, env, current, inCall, rfl⟩
          | _ =>
              rw [point] at assigned
              cases assigned

/-- The running process enters another phase. -/
theorem Invariant.advance (invariant : object.Invariant may related cpu phase)
    (running : cpu.current = some env) (entered : Phase)
    (code : next.code = Function.update cpu.code env (entered.code object))
    (current : next.current = some env)
    (holding : next.holding = entered.holding) (fact : entered.Fact object next)
    (accounted : ∀ other, (Function.update phase env entered other).Accounted next other)
    (nodup : next.queue.Nodup)
    (inCall : ∀ other, calling next.history other =
      (Function.update phase env entered other).inCall)
    (others : ∀ other event, other ≠ env → may (object.effects cpu phase) other event →
      may (object.effects next (Function.update phase env entered)) other event)
    (pending : ∀ event, entered.pending object = some event →
      may (object.effects next (Function.update phase env entered)) env event)
    (kept : related next.data (object.effects next (Function.update phase env entered))) :
    object.Invariant may related next (Function.update phase env entered) where
  code other := by
    rw [code]
    by_cases same : other = env
    · subst same
      rw [Function.update_self, Function.update_self]
    · rw [Function.update_of_ne same, Function.update_of_ne same]
      exact invariant.code other
  parked other away := by
    have different : other ≠ env := fun same => away (same ▸ current)
    rw [Function.update_of_ne different]
    exact invariant.parked other fun now =>
      different (Option.some.inj (now.symm.trans running))
  running other now := by
    obtain rfl : env = other := Option.some.inj (current.symm.trans now)
    rw [Function.update_self]
    exact ⟨holding, fact⟩
  idle now := by
    rw [current] at now
    cases now
  accounted := accounted
  nodup := nodup
  inCall := inCall
  pending other event soon := by
    by_cases same : other = env
    · subst same
      rw [Function.update_self] at soon
      exact pending event soon
    · rw [Function.update_of_ne same] at soon
      exact others other event same (invariant.pending other event soon)
  related := kept

/-- A statement that makes no assignment leads to another phase of the same call. -/
theorem Invariant.within (invariant : object.Invariant may related cpu phase)
    (running : cpu.current = some env) (entered : Phase)
    (code : next.code = Function.update cpu.code env (entered.code object))
    (current : next.current = cpu.current)
    (holding : next.holding = entered.holding) (fact : entered.Fact object next)
    (same : next.data = cpu.data ∧ next.history = cpu.history)
    (inCall : entered.inCall = (phase env).inCall)
    (assigned : entered.assigned object = (phase env).assigned object)
    (accounted : ∀ other, (Function.update phase env entered other).Accounted next other)
    (nodup : next.queue.Nodup) :
    object.Invariant may related next (Function.update phase env entered) := by
  have effect : entered.effect object = (phase env).effect object := by
    rw [Phase.effect, Phase.effect, inCall, assigned]
  have effects : object.effects next (Function.update phase env entered) =
      object.effects cpu phase := by
    rw [effects_of_running env (current.trans running), effects_of_running env running,
      Function.update_self, effect, same.2]
  refine invariant.advance running entered code (current.trans running) holding fact accounted nodup
    (fun other => ?_) (fun other event _ allowed => ?_) (fun event soon => ?_) ?_
  · rw [same.2, invariant.inCall other]
    by_cases equal : other = env
    · rw [equal, Function.update_self, inCall]
    · rw [Function.update_of_ne equal]
  · rwa [effects]
  · rw [effects]
    refine invariant.pending env event ?_
    rwa [Phase.pending, ← inCall, ← assigned]
  · rw [effects, same.1]
    exact invariant.related

/-- A statement that leaves the object and the statuses alone. -/
theorem Invariant.silent (invariant : object.Invariant may related cpu phase)
    (running : cpu.current = some env) (entered : Phase)
    (code : next.code = Function.update cpu.code env (entered.code object))
    (current : next.current = cpu.current)
    (holding : next.holding = entered.holding) (fact : entered.Fact object next)
    (same : next.data = cpu.data ∧ next.history = cpu.history)
    (kept : next.status = cpu.status ∧ next.queue = cpu.queue)
    (like : entered.Like object (phase env)) :
    ∃ phase', object.Invariant may related next phase' := by
  refine ⟨_, invariant.within running entered code current holding fact same like.inCall
    like.assigned (fun other => ?_) ?_⟩
  · by_cases equal : other = env
    · rw [equal, Function.update_self]
      exact (invariant.accounted env).congr (congrFun kept.1 env) kept.2
        (by rw [current]) like.awake
        like.queueing
    · rw [Function.update_of_ne equal]
      exact (invariant.accounted other).congr (congrFun kept.1 other) kept.2
        (by rw [current]) Iff.rfl
        Iff.rfl
  · rw [kept.2]
    exact invariant.nodup

/-- A process that gives up the CPU is parked. -/
theorem Invariant.park (invariant : object.Invariant may related cpu phase)
    (running : cpu.current = some env) (left : Phase) (parked : left.Parked)
    (code : next.code = Function.update cpu.code env (left.code object))
    (current : next.current = none) (lk : next.holding .lk = false)
    (attended : object.Attended next) (same : next.data = cpu.data ∧ next.history = cpu.history)
    (kept : next.status = cpu.status ∧ next.queue = cpu.queue)
    (status : cpu.status env ≠ .running) (inCall : left.inCall = (phase env).inCall)
    (assigned : (phase env).assigned object = false)
    (queueing : left.Queueing ↔ (phase env).Queueing) :
    object.Invariant may related next (Function.update phase env left) := by
  have elsewhere : ∀ {other}, other ≠ env → cpu.current ≠ some other := fun different now =>
    different (Option.some.inj (now.symm.trans running))
  have effects : object.effects next (Function.update phase env left) =
      object.effects cpu phase := by
    have unassigned : ∀ other, cpu.current = some other →
        (phase other).assigned object = false := by
      intro other now
      obtain rfl := Option.some.inj (running.symm.trans now)
      exact assigned
    rw [effects_of_unassigned phase unassigned, ← same.2]
    exact effects_of_unassigned _ fun other now => by cases current.symm.trans now
  refine ⟨fun other => ?_, fun other _ => ?_, fun other now => ?_, fun _ => ⟨lk, attended⟩,
    fun other => ?_, ?_, fun other => ?_, fun other event soon => ?_, ?_⟩
  · rw [code]
    by_cases equal : other = env
    · rw [equal, Function.update_self, Function.update_self]
    · rw [Function.update_of_ne equal, Function.update_of_ne equal]
      exact invariant.code other
  · by_cases equal : other = env
    · rwa [equal, Function.update_self]
    · rw [Function.update_of_ne equal]
      exact invariant.parked other (elsewhere equal)
  · cases current.symm.trans now
  · obtain ⟨running', queued, blocked⟩ := invariant.accounted other
    by_cases equal : other = env
    · rw [equal, Function.update_self]
      refine ⟨?_, ?_, ?_⟩
      · rw [kept.1]
        exact iff_of_false status fun now => by cases current.symm.trans now.1
      · rw [kept.1, kept.2, queueing, ← equal]
        exact queued
      · rw [kept.1, queueing, ← equal]
        exact blocked
    · rw [Function.update_of_ne equal]
      refine ⟨?_, by rw [kept.1, kept.2, queued], by rwa [kept.1]⟩
      rw [kept.1, running']
      exact iff_of_false (fun now => elsewhere equal now.1) fun now => by
        cases current.symm.trans now.1
  · rw [kept.2]
    exact invariant.nodup
  · rw [same.2, invariant.inCall other]
    by_cases equal : other = env
    · rw [equal, Function.update_self, inCall]
    · rw [Function.update_of_ne equal]
  · rw [effects]
    by_cases equal : other = env
    · rw [equal, Function.update_self, Phase.pending, Phase.unassigned_of_parked parked] at soon
      refine invariant.pending other event ?_
      rwa [equal, Phase.pending, assigned, ← inCall]
    · rw [Function.update_of_ne equal] at soon
      exact invariant.pending other event soon
  · rw [effects, same.1]
    exact invariant.related

/-- Taking a spinlock that is free leads to the phase behind. -/
theorem Invariant.acquire (invariant : object.Invariant may related cpu phase)
    (running : cpu.current = some env) {left : Phase} (point : phase env = left)
    {lock : Spinlock} (entered : Phase)
    (free : left.holding lock = false)
    (held : ∀ other, entered.holding other = (decide (other = lock) || left.holding other))
    (fact : entered.Fact object cpu) (like : entered.Like object left) :
    ∃ next, cpu.exec env (entered.code object) (.acquire lock) = some next ∧
      ∃ phase', object.Invariant may related next phase' := by
  obtain ⟨holding, -⟩ := invariant.running env running
  rw [point] at holding
  refine ⟨(cpu.setHolding lock true).setCode env (entered.code object), ?_,
    invariant.silent running entered rfl rfl ?_ (fact.congr rfl rfl) ⟨rfl, rfl⟩ ⟨rfl, rfl⟩
      (point ▸ like)⟩
  · simp [Cpu.exec, holding, free]
  · funext other
    change Function.update cpu.holding lock true other = _
    rw [held, holding]
    by_cases same : other = lock
    · subst same
      simp
    · simp [same]

/-- Dropping a spinlock that is held leads to the phase behind. -/
theorem Invariant.release (invariant : object.Invariant may related cpu phase)
    (running : cpu.current = some env) {left : Phase} (point : phase env = left)
    {lock : Spinlock} (entered : Phase)
    (taken : left.holding lock = true)
    (held : ∀ other, entered.holding other =
      (!decide (other = lock) && left.holding other))
    (fact : entered.Fact object cpu) (like : entered.Like object left) :
    ∃ next, cpu.exec env (entered.code object) (.release lock) = some next ∧
      ∃ phase', object.Invariant may related next phase' := by
  obtain ⟨holding, -⟩ := invariant.running env running
  rw [point] at holding
  refine ⟨(cpu.setHolding lock false).setCode env (entered.code object), ?_,
    invariant.silent running entered rfl rfl ?_ (fact.congr rfl rfl) ⟨rfl, rfl⟩ ⟨rfl, rfl⟩
      (point ▸ like)⟩
  · simp [Cpu.exec, holding, taken]
  · funext other
    change Function.update cpu.holding lock false other = _
    rw [held, holding]
    by_cases same : other = lock
    · subst same
      simp
    · simp [same]

/-- `sched` is entered with `qlock` alone and parks the process. -/
theorem Invariant.sched (invariant : object.Invariant may related cpu phase)
    (running : cpu.current = some env) (left : Phase) (parked : left.Parked)
    (held : (phase env).holding = fun lock => decide (lock = .qlock))
    (asleep : ¬ (phase env).Awake) (attended : object.Attended cpu)
    (inCall : left.inCall = (phase env).inCall) (assigned : (phase env).assigned object = false)
    (queueing : left.Queueing ↔ (phase env).Queueing) :
    ∃ next, cpu.exec env (left.code object) .sched = some next ∧
      ∃ phase', object.Invariant may related next phase' := by
  obtain ⟨holding, -⟩ := invariant.running env running
  rw [held] at holding
  have status : cpu.status env ≠ .running := fun now =>
    asleep ((invariant.accounted env).running.mp now).2
  refine ⟨{ cpu.setCode env (left.code object) with current := none }, ?_, _,
    invariant.park running left parked rfl rfl ?_ attended ⟨rfl, rfl⟩
      ⟨rfl, rfl⟩ status inCall
      assigned queueing⟩
  · simp [Cpu.exec, holding, status]
  · change cpu.holding .lk = false
    rw [holding]
    rfl

/-- The running process stores a status other than RUNNING. -/
theorem Invariant.store (invariant : object.Invariant may related cpu phase)
    (running : cpu.current = some env) (entered : Phase) (status : RunStatus)
    (awake : (phase env).Awake) (unlike : status ≠ .running) (asleep : ¬ entered.Awake)
    (queueing : status = .blocked ↔ entered.Queueing)
    (holding : (phase env).holding = entered.holding) (fact : entered.Fact object cpu)
    (inCall : entered.inCall = (phase env).inCall)
    (assigned : entered.assigned object = (phase env).assigned object) :
    object.Invariant may related ((cpu.setStatus env status).setCode env (entered.code object))
      (Function.update phase env entered) := by
  have now : cpu.status env = .running :=
    (invariant.accounted env).running.mpr ⟨running, awake⟩
  refine invariant.within running entered rfl rfl ((invariant.running env running).1.trans holding)
    (fact.congr rfl rfl) ⟨rfl, rfl⟩ inCall assigned (fun other => ?_) invariant.nodup
  have stored : ((cpu.setStatus env status).setCode env (entered.code object)).status env =
      status :=
    Function.update_self ..
  by_cases equal : other = env
  · have absent : env ∉ cpu.queue := fun member => by
      cases now.symm.trans ((invariant.accounted env).queued.mp member).1
    rw [equal, Function.update_self]
    refine ⟨?_, ?_, fun soon => stored.trans (queueing.mpr soon)⟩
    · exact iff_of_false (fun same => unlike (stored.symm.trans same)) fun same => asleep same.2
    · exact iff_of_false absent fun blocked =>
        blocked.2 (queueing.mp (stored.symm.trans blocked.1))
  · rw [Function.update_of_ne equal]
    exact (invariant.accounted other).congr (Function.update_of_ne equal ..) rfl Iff.rfl
      Iff.rfl Iff.rfl

/-- The running process makes the assignment of its call. -/
theorem Invariant.assign (invariant : object.Invariant may related cpu phase)
    (disciplined : object.Disciplined may related) (running : cpu.current = some env)
    (entered : Phase) (event : ObjectEvent) {value : σ → σ}
    (before : (phase env).inCall = some event ∧ (phase env).assigned object = false ∧
      (phase env).Awake ∧ ¬ (phase env).Queueing)
    (after : entered.inCall = some event ∧ entered.assigned object = true ∧ entered.Awake ∧
      ¬ entered.Queueing)
    (holding : (phase env).holding = entered.holding)
    (fact : entered.Fact object { cpu with data := value cpu.data })
    (kept : may (object.effects cpu phase) env event →
      related (value cpu.data) ((event, env) :: object.effects cpu phase)) :
    object.Invariant may related
      { cpu.setCode env (entered.code object) with data := value cpu.data }
      (Function.update phase env entered) := by
  have unassigned : object.effects cpu phase = returned cpu.history :=
    effects_of_unassigned phase fun other now => by
      obtain rfl := Option.some.inj (running.symm.trans now)
      exact before.2.1
  have effects : object.effects { cpu.setCode env (entered.code object) with
    data := value cpu.data }
      (Function.update phase env entered) = (event, env) :: object.effects cpu phase := by
    have current : Cpu.current { cpu.setCode env (entered.code object) with
      data := value cpu.data } = some env := running
    rw [effects_of_running env current, Function.update_self, Phase.effect, after.2.1, after.1,
      unassigned]
    rfl
  have allowed : may (object.effects cpu phase) env event := invariant.pending env event (by
    rw [Phase.pending, before.2.1]
    exact before.1)
  refine invariant.advance running entered rfl running
    ((invariant.running env running).1.trans holding) (fact.congr rfl rfl) (fun other => ?_)
    invariant.nodup (fun other => ?_) (fun other event' different may => ?_) (fun event' soon => ?_)
    ?_
  · by_cases equal : other = env
    · rw [equal, Function.update_self]
      exact (invariant.accounted env).congr rfl rfl Iff.rfl (iff_of_true after.2.2.1 before.2.2.1)
        (iff_of_false after.2.2.2 before.2.2.2)
    · rw [Function.update_of_ne equal]
      exact (invariant.accounted other).congr rfl rfl Iff.rfl Iff.rfl Iff.rfl
  · refine (invariant.inCall other).trans ?_
    by_cases equal : other = env
    · rw [equal, Function.update_self, before.1, after.1]
    · rw [Function.update_of_ne equal]
  · rw [effects]
    exact disciplined.others may env event (Ne.symm different)
  · rw [Phase.pending, after.2.1] at soon
    cases soon
  · rw [effects]
    exact kept allowed

/-- A blocked process comes into the queue. -/
theorem Invariant.enqueue (invariant : object.Invariant may related cpu phase)
    (running : cpu.current = some env) (point : phase env = .sleepEnqueue) :
    ∃ next, cpu.exec env (Phase.code object .sleepSched) .enqueue = some next ∧
      ∃ phase', object.Invariant may related next phase' := by
  obtain ⟨holding, fact⟩ := invariant.running env running
  rw [point] at holding fact
  have here := invariant.accounted env
  rw [point] at here
  have absent : env ∉ cpu.queue := fun member => (here.queued.mp member).2 trivial
  refine ⟨_, rfl, _, invariant.within running .sleepSched rfl rfl holding fact
    ⟨rfl, rfl⟩ ?_ ?_
    (fun other => ?_) (List.nodup_cons.mpr ⟨absent, invariant.nodup⟩)⟩
  · rw [point]
    rfl
  · rw [point]
    rfl
  · have accounted := invariant.accounted other
    by_cases equal : other = env
    · rw [equal, Function.update_self]
      exact ⟨here.running, iff_of_true List.mem_cons_self ⟨here.blocked trivial, id⟩,
        False.elim⟩
    · rw [Function.update_of_ne equal]
      refine ⟨accounted.running, Iff.trans ?_ accounted.queued, accounted.blocked⟩
      exact List.mem_cons.trans (or_iff_right equal)

/-- A process in a phase has nothing to return from. -/
theorem Invariant.returns_eq (invariant : object.Invariant may related cpu phase) (env : ν) :
    cpu.returns env = cpu := by
  have coded := invariant.code env
  have inCall := invariant.inCall env
  unfold Cpu.returns
  split
  · rename_i event code called
    rw [code] at coded
    rw [called] at inCall
    cases point : phase env with
    | outside | yieldReady | yieldSched | yieldBack =>
        rw [point] at inCall
        cases inCall
    | giving =>
        rw [point, given_code] at coded
        cases coded
    | _ =>
        rw [point] at coded
        cases coded
  · rfl

/-- The last statement of a call, and its return. -/
theorem Invariant.leave (invariant : object.Invariant may related cpu phase)
    (running : cpu.current = some env) {event : ObjectEvent} (point : phase env = .leaving event) :
    ∃ next, cpu.exec env [] (.release .lk) = some next ∧
      ∃ phase', object.Invariant may related (next.returns env) phase' := by
  obtain ⟨holding, fact⟩ := invariant.running env running
  have called := invariant.inCall env
  rw [point] at holding fact called
  have coded : ((cpu.setHolding .lk false).setCode env []).code env = [] := Function.update_self ..
  have returns : ((cpu.setHolding .lk false).setCode env []).returns env =
      { (cpu.setHolding .lk false).setCode env [] with
        history := (.ret event, env) :: cpu.history } := by
    have called' : calling ((cpu.setHolding .lk false).setCode env []).history env = some event :=
      called
    rw [Cpu.returns, coded, called']
    rfl
  refine ⟨(cpu.setHolding .lk false).setCode env [], ?_, Function.update phase env .outside, ?_⟩
  · simp [Cpu.exec, holding, Phase.holding]
  · rw [returns]
    have effects : object.effects { (cpu.setHolding .lk false).setCode env [] with
        history := (.ret event, env) :: cpu.history } (Function.update phase env .outside) =
          object.effects cpu phase := by
      rw [effects_of_running env running, effects_of_running env (by exact running), point,
        Function.update_self]
      rfl
    refine invariant.advance running .outside rfl running ?_ (.inl fact) (fun other => ?_)
      invariant.nodup (fun other => ?_) (fun other event' _ allowed => ?_)
        (fun event' soon => ?_) ?_
    · funext other
      change Function.update cpu.holding .lk false other = _
      rw [holding]
      cases other <;> rfl
    · have accounted := invariant.accounted other
      by_cases equal : other = env
      · rw [equal, point] at accounted
        rw [equal, Function.update_self]
        exact accounted.congr rfl rfl Iff.rfl Iff.rfl Iff.rfl
      · rw [Function.update_of_ne equal]
        exact accounted.congr rfl rfl Iff.rfl Iff.rfl Iff.rfl
    · by_cases equal : other = env
      · rw [equal, Function.update_self]
        exact if_pos rfl
      · rw [Function.update_of_ne equal]
        exact (if_neg (Ne.symm equal)).trans (invariant.inCall other)
    · rwa [effects]
    · cases soon
    · rw [effects]
      exact invariant.related

/-- A round of `wakeup_all` makes the process at the end of the queue ready. -/
theorem Invariant.wake (invariant : object.Invariant may related cpu phase)
    (running : cpu.current = some env) {count : Nat} (point : phase env = .wakeRounds (count + 1)) :
    ∃ next, cpu.exec env (wakeupAll.drop 2 ++ object.afterWake) (.wakeRounds (count + 1)) =
        some next ∧ ∃ phase', object.Invariant may related next phase' := by
  obtain ⟨holding, fact⟩ := invariant.running env running
  have awake : cpu.status env = .running := (invariant.accounted env).running.mpr ⟨running, by
    rw [point]
    trivial⟩
  rw [point] at holding fact
  have nonempty : cpu.queue ≠ [] := fun empty => by simp [Phase.Fact, empty] at fact
  have last := List.getLast?_eq_some_getLast nonempty
  have qlock : cpu.holding .qlock = true := congrFun holding .qlock
  let block := cpu.queue.getLast nonempty
  have split : cpu.queue.dropLast ++ [block] = cpu.queue :=
    List.dropLast_concat_getLast nonempty
  have distinct : (cpu.queue.dropLast ++ [block]).Nodup := by
    rw [split]
    exact invariant.nodup
  have gone : block ∉ cpu.queue.dropLast := fun member =>
    (List.nodup_append.mp distinct).2.2 block member block (List.mem_singleton_self _) rfl
  have blocked : cpu.status block = .blocked :=
    ((invariant.accounted block).queued.mp (List.getLast_mem nonempty)).1
  refine ⟨{ (cpu.setStatus block .ready).setCode env (Phase.code object (.wakeRounds count)) with
    queue := cpu.queue.dropLast }, ?_, _,
      invariant.within running (.wakeRounds count) rfl rfl holding
      ?_ ⟨rfl, rfl⟩ ?_ ?_ (fun other => ?_) (List.nodup_append.mp distinct).1⟩
  · rw [Cpu.exec, last]
    exact if_pos qlock
  · change count = cpu.queue.dropLast.length
    rw [List.length_dropLast, ← fact, Nat.add_sub_cancel]
  · rw [point]
    rfl
  · rw [point]
    rfl
  · have accounted := invariant.accounted other
    have like : (Function.update phase env (.wakeRounds count) other).Awake ↔
        (phase other).Awake := by
      by_cases equal : other = env
      · rw [equal, Function.update_self, point]
        exact Iff.rfl
      · rw [Function.update_of_ne equal]
    have like' : (Function.update phase env (.wakeRounds count) other).Queueing ↔
        (phase other).Queueing := by
      by_cases equal : other = env
      · rw [equal, Function.update_self, point]
        exact Iff.rfl
      · rw [Function.update_of_ne equal]
    by_cases same : other = block
    · have ready : Function.update cpu.status block .ready other = .ready := by
        rw [same, Function.update_self]
      refine ⟨?_, ?_, fun soon => ?_⟩
      · change Function.update cpu.status block .ready other = _ ↔ cpu.current = _ ∧ _
        rw [ready, like, ← accounted.running, same, blocked]
        exact iff_of_false (by decide) (by decide)
      · change _ ↔ Function.update cpu.status block .ready other = _ ∧ _
        rw [ready]
        exact iff_of_false (same ▸ gone) fun now => by cases now.1
      · refine absurd (like'.mp soon) ?_
        rw [same]
        exact ((invariant.accounted block).queued.mp (List.getLast_mem nonempty)).2
    · have kept : Function.update cpu.status block .ready other = cpu.status other :=
        Function.update_of_ne same ..
      refine ⟨?_, ?_, fun soon => kept.trans (accounted.blocked (like'.mp soon))⟩
      · change Function.update cpu.status block .ready other = _ ↔ cpu.current = _ ∧ _
        rw [kept, like, accounted.running]
      · change other ∈ cpu.queue.dropLast ↔
          Function.update cpu.status block .ready other = _ ∧ _
        rw [kept, like', ← accounted.queued, ← split, List.dropLast_concat]
        simp [same]

/-- Every statement of the running process is executed without a panic and leads to a phase. -/
theorem Invariant.exec (invariant : object.Invariant may related cpu phase)
    (disciplined : object.Disciplined may related) (running : cpu.current = some env)
    {statement : Statement σ} {rest : List (Statement σ)}
    (code : cpu.code env = statement :: rest) :
    ∃ next, cpu.exec env rest statement = some next ∧
      ∃ phase', object.Invariant may related (next.returns env) phase' := by
  obtain ⟨holding, fact⟩ := invariant.running env running
  have coded := code.symm.trans (invariant.code env)
  have stays : (∃ next, cpu.exec env rest statement = some next ∧
      ∃ phase', object.Invariant may related next phase') →
      ∃ next, cpu.exec env rest statement = some next ∧
        ∃ phase', object.Invariant may related (next.returns env) phase' := by
    rintro ⟨next, executed, phase', kept⟩
    exact ⟨next, executed, phase', (kept.returns_eq env).symm ▸ kept⟩
  cases point : phase env with
  | outside =>
      rw [point] at coded
      cases coded
  | yieldReady =>
      rw [point] at holding fact coded
      obtain ⟨rfl, rfl⟩ := List.cons.inj coded
      refine stays ⟨_, rfl, _, invariant.store running .yieldSched .ready ?_ (by decide) id
        (iff_of_false (by decide) id) ?_ fact ?_ ?_⟩
      · rw [point]
        trivial
      all_goals
        rw [point]
        rfl
  | yieldSched =>
      rw [point] at fact coded
      obtain ⟨rfl, rfl⟩ := List.cons.inj coded
      refine stays (invariant.sched running .yieldBack trivial ?_ ?_ fact ?_ ?_ ?_)
      · rw [point]
        rfl
      · rw [point]
        exact id
      all_goals rw [point]; rfl
  | yieldBack =>
      rw [point] at fact coded
      obtain ⟨rfl, rfl⟩ := List.cons.inj coded
      exact stays (invariant.release running point .outside rfl (fun lock => by cases lock <;> rfl)
        fact ⟨rfl, rfl, Iff.rfl, Iff.rfl⟩)
  | testing =>
      rw [point] at holding fact coded
      obtain ⟨rfl, rfl⟩ := List.cons.inj coded
      by_cases test : object.test cpu.data = true
      · refine stays ⟨cpu.setCode env (Phase.sleepQlock.code object), ?_,
          invariant.silent running .sleepQlock rfl rfl holding test
            ⟨rfl, rfl⟩ ⟨rfl, rfl⟩ ?_⟩
        · rw [Cpu.exec, if_pos test]
          rfl
        · rw [point]
          exact ⟨rfl, rfl, Iff.rfl, Iff.rfl⟩
      · have fails : object.test cpu.data = false := Bool.eq_false_iff.mpr test
        refine stays ⟨cpu.setCode env (Phase.taking.code object), ?_,
          invariant.silent running .taking rfl rfl holding ⟨fails, fact.resolve_right test⟩
            ⟨rfl, rfl⟩ ⟨rfl, rfl⟩ ?_⟩
        · rw [Cpu.exec, if_neg test]
          rfl
        · rw [point]
          exact ⟨rfl, rfl, Iff.rfl, Iff.rfl⟩
  | sleepQlock =>
      rw [point] at fact coded
      obtain ⟨rfl, rfl⟩ := List.cons.inj coded
      exact stays (invariant.acquire running point .sleepRelease rfl
        (fun lock => by cases lock <;> rfl) fact ⟨rfl, rfl, Iff.rfl, Iff.rfl⟩)
  | sleepRelease =>
      rw [point] at fact coded
      obtain ⟨rfl, rfl⟩ := List.cons.inj coded
      exact stays (invariant.release running point .sleepBlock rfl
        (fun lock => by cases lock <;> rfl) fact ⟨rfl, rfl, Iff.rfl, Iff.rfl⟩)
  | sleepBlock =>
      rw [point] at holding fact coded
      obtain ⟨rfl, rfl⟩ := List.cons.inj coded
      refine stays ⟨_, rfl, _, invariant.store running .sleepEnqueue .blocked ?_ (by decide) id
        (iff_of_true rfl trivial) ?_ fact ?_ ?_⟩
      · rw [point]
        trivial
      all_goals
        rw [point]
        rfl
  | sleepEnqueue =>
      obtain ⟨asleep, queued⟩ := invariant.accounted env
      rw [point] at holding fact coded asleep queued
      obtain ⟨rfl, rfl⟩ := List.cons.inj coded
      exact stays (invariant.enqueue running point)
  | sleepSched =>
      rw [point] at fact coded
      obtain ⟨rfl, rfl⟩ := List.cons.inj coded
      refine stays (invariant.sched running .sleepBack trivial ?_ ?_ (.inr fact) ?_ ?_ ?_)
      · rw [point]
        rfl
      · rw [point]
        exact id
      all_goals rw [point]; rfl
  | sleepBack =>
      rw [point] at fact coded
      obtain ⟨rfl, rfl⟩ := List.cons.inj coded
      exact stays (invariant.acquire running point .sleepLeave rfl
        (fun lock => by cases lock <;> rfl) fact ⟨rfl, rfl, Iff.rfl, Iff.rfl⟩)
  | sleepLeave =>
      rw [point] at fact coded
      obtain ⟨rfl, rfl⟩ := List.cons.inj coded
      exact stays (invariant.release running point .testing rfl
        (fun lock => by cases lock <;> rfl) fact ⟨rfl, rfl, Iff.rfl, Iff.rfl⟩)
  | taking =>
      rw [point] at holding fact coded
      obtain ⟨rfl, rfl⟩ := List.cons.inj coded
      refine stays ⟨_, rfl, _, invariant.assign disciplined running (.leaving .take) .take ?_
        ⟨rfl, rfl, trivial, id⟩ ?_ fact.2 (disciplined.take invariant.related fact.1)⟩
      · rw [point]
        exact ⟨rfl, rfl, trivial, id⟩
      · rw [point]
        rfl
  | leaving event =>
      rw [point] at coded
      obtain ⟨rfl, rfl⟩ := List.cons.inj coded
      exact invariant.leave running point
  | giving =>
      rw [point] at fact coded
      obtain ⟨rfl, rfl⟩ := List.cons.inj (coded.trans given_code)
      refine stays ⟨_, rfl, _, invariant.assign disciplined running object.given .give
        ?_ given_like ?_
        (given_fact fact) (disciplined.give invariant.related)⟩
      · rw [point]
        exact ⟨rfl, rfl, trivial, id⟩
      · rw [point]
        funext lock
        exact (given_holding lock).symm
  | waking =>
      rw [point] at holding fact coded
      obtain ⟨rfl, rfl⟩ := List.cons.inj coded
      by_cases queued : 0 < cpu.queue.length
      · refine stays ⟨cpu.setCode env (Phase.wakeQlock.code object), ?_,
          invariant.silent running .wakeQlock rfl rfl holding trivial
            ⟨rfl, rfl⟩ ⟨rfl, rfl⟩ ?_⟩
        · rw [Cpu.exec, if_pos queued]
          rfl
        · rw [point]
          exact ⟨rfl, rfl, Iff.rfl, Iff.rfl⟩
      · have empty : cpu.queue = [] := List.length_eq_zero_iff.mp (by omega)
        refine stays ⟨cpu.setCode env (object.woken.code object), ?_,
          invariant.silent running object.woken rfl rfl ?_ (woken_fact empty)
            ⟨rfl, rfl⟩ ⟨rfl, rfl⟩ ?_⟩
        · rw [Cpu.exec, if_neg queued, woken_code]
        · funext lock
          rw [woken_holding]
          exact congrFun holding lock
        · rw [point]
          exact woken_like object
  | wakeQlock =>
      rw [point] at coded
      obtain ⟨rfl, rfl⟩ := List.cons.inj coded
      exact stays (invariant.acquire running point .wakeSize rfl
        (fun lock => by cases lock <;> rfl) trivial ⟨rfl, rfl, Iff.rfl, Iff.rfl⟩)
  | wakeSize =>
      rw [point] at holding coded
      obtain ⟨rfl, rfl⟩ := List.cons.inj coded
      refine stays ⟨_, rfl, invariant.silent running
        (.wakeRounds cpu.queue.length) rfl rfl holding rfl
        ⟨rfl, rfl⟩ ⟨rfl, rfl⟩ ?_⟩
      rw [point]
      exact ⟨rfl, rfl, Iff.rfl, Iff.rfl⟩
  | wakeRounds count =>
      rw [point] at holding fact coded
      obtain ⟨rfl, rfl⟩ := List.cons.inj coded
      cases count with
      | zero =>
          have empty : cpu.queue = [] := List.length_eq_zero_iff.mp fact.symm
          refine stays ⟨_, rfl, invariant.silent running .wakeLeave rfl rfl holding
            empty ⟨rfl, rfl⟩
            ⟨rfl, rfl⟩ ?_⟩
          rw [point]
          exact ⟨rfl, rfl, Iff.rfl, Iff.rfl⟩
      | succ count => exact stays (invariant.wake running point)
  | wakeLeave =>
      rw [point] at fact coded
      obtain ⟨rfl, rfl⟩ := List.cons.inj (coded.trans (congrArg _ woken_code.symm))
      have like := woken_like object
      refine stays (invariant.release running point object.woken rfl (fun other => ?_)
        (woken_fact fact) ⟨like.inCall, like.assigned, like.awake, like.queueing⟩)
      rw [woken_holding]
      cases other <;> rfl

/-- The first statement of a call takes the spinlock of the object. -/
theorem Invariant.call (invariant : object.Invariant may related cpu phase)
    (running : cpu.current = some env) (outside : cpu.code env = []) (event : ObjectEvent)
    (allowed : may (returned cpu.history) env event) {statement : Statement σ}
    {rest : List (Statement σ)} (code : object.body event = statement :: rest) :
    ∃ next, cpu.exec env rest statement = some next ∧
      ∃ phase', object.Invariant may related (next.called env event) phase' := by
  obtain ⟨holding, fact⟩ := invariant.running env running
  have coded := outside.symm.trans (invariant.code env)
  have point : phase env = .outside := by
    cases point : phase env with
    | outside => rfl
    | giving =>
        rw [point, given_code] at coded
        cases coded
    | _ =>
        rw [point] at coded
        cases coded
  rw [point] at holding fact
  obtain ⟨rfl, rfl⟩ := List.cons.inj (code.symm.trans (entered_code event))
  obtain ⟨inCall, assigned, awake, queueing⟩ := entered_like object event
  have effects : object.effects (((cpu.setHolding .lk true).setCode env
      ((object.entered event).code object)).called env event)
      (Function.update phase env (object.entered event)) = object.effects cpu phase := by
    rw [effects_of_running env running, effects_of_running env (by exact running), point,
      Function.update_self, Phase.effect, assigned]
    rfl
  have before : object.effects cpu phase = returned cpu.history := by
    rw [effects_of_running env running, point]
    rfl
  refine ⟨(cpu.setHolding .lk true).setCode env ((object.entered event).code object), ?_, _,
    invariant.advance running (object.entered event) rfl running ?_
      ((entered_fact fact).congr rfl rfl) (fun other => ?_) invariant.nodup (fun other => ?_)
      (fun other event' _ may => ?_) (fun event' soon => ?_) ?_⟩
  · simp [Cpu.exec, holding, Phase.holding]
  · funext other
    change Function.update cpu.holding .lk true other = _
    rw [entered_holding, holding]
    cases other <;> rfl
  · have accounted := invariant.accounted other
    by_cases equal : other = env
    · rw [equal, point] at accounted
      rw [equal, Function.update_self]
      exact accounted.congr rfl rfl Iff.rfl (iff_of_true awake trivial) (iff_of_false queueing id)
    · rw [Function.update_of_ne equal]
      exact accounted.congr rfl rfl Iff.rfl Iff.rfl Iff.rfl
  · by_cases equal : other = env
    · rw [equal, Function.update_self, inCall]
      exact if_pos rfl
    · rw [Function.update_of_ne equal]
      exact (if_neg (Ne.symm equal)).trans (invariant.inCall other)
  · rwa [effects]
  · rw [Phase.pending, assigned] at soon
    obtain rfl := Option.some.inj (inCall.symm.trans soon)
    rwa [effects, before]
  · rw [effects]
    exact invariant.related

/-- The scheduler takes or drops `qlock`. -/
theorem Invariant.unoccupied (invariant : object.Invariant may related cpu phase)
    (idle : cpu.current = none) (held : Bool) :
    object.Invariant may related (cpu.setHolding .qlock held) phase where
  code := invariant.code
  parked := invariant.parked
  running _ now := by cases idle.symm.trans now
  idle := invariant.idle
  accounted env := (invariant.accounted env).congr rfl rfl Iff.rfl Iff.rfl Iff.rfl
  nodup := invariant.nodup
  inCall := invariant.inCall
  pending := invariant.pending
  related := invariant.related

/-- The scheduler gives the CPU to a ready process. -/
theorem Invariant.dispatch (invariant : object.Invariant may related cpu phase)
    (idle : cpu.current = none) (locked : cpu.holding .qlock = true)
    (ready : cpu.status env = .ready) :
    object.Invariant may related { cpu.setStatus env .running with current := some env } phase := by
  obtain ⟨lk, attended⟩ := invariant.idle idle
  have away : ∀ other, cpu.current ≠ some other := fun other now => by cases idle.symm.trans now
  have parked := invariant.parked env (away env)
  have effects : object.effects { cpu.setStatus env .running with current := some env } phase =
      object.effects cpu phase := by
    rw [effects_of_unassigned phase fun other now => absurd now (away other)]
    refine effects_of_unassigned phase fun other now => ?_
    obtain rfl := Option.some.inj now
    exact Phase.unassigned_of_parked parked
  have stored : (cpu.setStatus env .running).status env = .running := Function.update_self ..
  refine ⟨invariant.code, fun other _ => invariant.parked other (away other), fun other now => ?_,
    fun now => absurd now (Option.some_ne_none env), fun other => ?_, invariant.nodup,
    invariant.inCall, ?_, ?_⟩
  · obtain rfl := Option.some.inj now
    cases point : phase env with
    | yieldBack | sleepBack =>
        refine ⟨?_, attended⟩
        funext lock
        cases lock with
        | lk => exact lk
        | qlock => exact locked
    | _ =>
        rw [point] at parked
        exact parked.elim
  · have accounted := invariant.accounted other
    by_cases equal : other = env
    · rw [equal] at accounted ⊢
      have absent : env ∉ cpu.queue := fun member => by
        cases ready.symm.trans (accounted.queued.mp member).1
      obtain ⟨awake, queueing⟩ := Phase.awake_of_parked parked
      refine ⟨iff_of_true stored ⟨rfl, awake⟩, iff_of_false absent fun blocked => ?_,
        fun soon => absurd soon queueing⟩
      cases stored.symm.trans blocked.1
    · have kept : (cpu.setStatus env .running).status other = cpu.status other :=
        Function.update_of_ne equal ..
      exact accounted.congr kept rfl (iff_of_false (fun now => equal (Option.some.inj now).symm)
        (away other)) Iff.rfl Iff.rfl
  · rw [effects]
    exact invariant.pending
  · rw [effects]
    exact invariant.related

/-- Every step keeps the invariant. -/
theorem Invariant.step (invariant : object.Invariant may related cpu phase)
    (disciplined : object.Disciplined may related) (step : cpu.Step object.body may next) :
    ∃ phase', object.Invariant may related next phase' := by
  cases step with
  | call event running outside allowed code executed =>
      obtain ⟨after, same, kept⟩ := invariant.call running outside event allowed code
      obtain rfl := Option.some.inj (executed.symm.trans same)
      exact kept
  | exec running code executed =>
      obtain ⟨after, same, kept⟩ := invariant.exec disciplined running code
      obtain rfl := Option.some.inj (executed.symm.trans same)
      exact kept
  | @interrupt env running unlocked =>
      obtain ⟨holding, fact⟩ := invariant.running env running
      have point := invariant.outside unlocked running
      have code := invariant.code env
      rw [point] at holding fact code
      refine invariant.silent running .yieldReady ?_ rfl ?_ fact ⟨rfl, rfl⟩ ⟨rfl, rfl⟩ ?_
      · change Function.update cpu.code env (yieldRest ++ cpu.code env) = _
        rw [code]
        rfl
      · funext lock
        change Function.update cpu.holding .qlock true lock = _
        rw [holding]
        cases lock <;> rfl
      · rw [point]
        exact ⟨rfl, rfl, Iff.rfl, Iff.rfl⟩
  | @dispatch env idle locked ready => exact ⟨phase, invariant.dispatch idle locked ready⟩
  | idle idle locked noReady => exact ⟨phase, invariant.unoccupied idle false⟩
  | poll idle unlocked => exact ⟨phase, invariant.unoccupied idle true⟩

/-- No statement of any process ever panics: each spinlock is free when it is acquired and held
when it is released, `sched` is called with `qlock` alone, and every round of `wakeup_all` finds
a process. -/
theorem Invariant.safe (invariant : object.Invariant may related cpu phase)
    (disciplined : object.Disciplined may related) : cpu.Safe := by
  intro env statement rest running code
  obtain ⟨next, executed, -⟩ := invariant.exec disciplined running code
  rw [executed]
  rfl

end Steps

end GuardedObject

end FosKernel
