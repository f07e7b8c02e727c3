import FosKernel.Cpu.Settled
import FosKernel.Cpu.Ticks

/-!
# Calls of the scheduler

What each call does to an environment, and that calls lead from settled states to
settled states. A call changes environments, and then the scheduler may pick the next
one.
-/

namespace FosKernel

/-- What a call does to an environment before the scheduler picks the next one. It counts some
ticks at most, and the process on the CPU may leave it. -/
structure SchedEnv.Changed (levels ticks : Nat) (leaves : Bool) (value value' : SchedEnv) :
    Prop where
  level : value'.envStatus ≠ .exit → value'.priority < levels ∨
    value.envStatus ≠ .exit ∧ value'.priority ≤ value.priority
  running : value'.envStatus = .running →
    value.envStatus = .running ∧ value'.nTicks ≤ value.nTicks
  ready : value'.envStatus = .ready → value'.nTicks = 0 ∨
    value.envStatus = .ready ∧ value'.nTicks ≤ value.nTicks + ticks ∨
      leaves = true ∧ value.envStatus = .running ∧ value'.nTicks ≤ value.nTicks

theorem SchedEnv.Changed.refl (levels ticks : Nat) (leaves : Bool) (value : SchedEnv) :
    value.Changed levels ticks leaves value where
  level alive := .inr ⟨alive, Nat.le_refl _⟩
  running on := ⟨on, Nat.le_refl _⟩
  ready on := .inr (.inl ⟨on, Nat.le_add_right ..⟩)

theorem SchedEnv.Changed.trans {levels ticks : Nat} {leaves : Bool}
    {value value' value'' : SchedEnv} (first : value.Changed levels ticks leaves value')
    (second : value'.Changed levels 0 leaves value'') :
    value.Changed levels ticks leaves value'' where
  level alive := by
    rcases second.level alive with below | ⟨alive', le⟩
    · exact .inl below
    · rcases first.level alive' with below | ⟨before, le'⟩
      · exact .inl (Nat.lt_of_le_of_lt le below)
      · exact .inr ⟨before, le.trans le'⟩
  running on := by
    obtain ⟨on', le⟩ := second.running on
    obtain ⟨before, le'⟩ := first.running on'
    exact ⟨before, le.trans le'⟩
  ready on := by
    rcases second.ready on with zero | ⟨on', le⟩ | ⟨leaving, on', le⟩
    · exact .inl zero
    · rcases first.ready on' with zero | ⟨before, le'⟩ | ⟨leaving, before, le'⟩
      · exact .inl (by omega)
      · exact .inr (.inl ⟨before, by omega⟩)
      · exact .inr (.inr ⟨leaving, before, by omega⟩)
    · obtain ⟨before, le'⟩ := first.running on'
      exact .inr (.inr ⟨leaving, before, le.trans le'⟩)

namespace Scheduler

variable {sizeofEnv : Nat} {sched middle after : Scheduler sizeofEnv}
  {contents contents' : QueueName → List Nat} {adding adding' : List Nat} {env ticks : Nat}
  {leaves : Bool}

/-- Every environment that has not exited has a level. -/
def Leveled (sched : Scheduler sizeofEnv) : Prop :=
  0 < sched.numOfReadyQueues ∧ ∀ env < nenv sizeofEnv, (sched.envs env).envStatus ≠ .exit →
    (sched.envs env).priority < sched.numOfReadyQueues

/-- What a call does before the scheduler picks the next environment. -/
structure Changes (ticks : Nat) (leaves : Bool) (sched after : Scheduler sizeofEnv) : Prop where
  policy : SamePolicy sched after
  envs : ∀ env,
    (sched.envs env).Changed sched.numOfReadyQueues ticks leaves (after.envs env)

theorem Changes.refl (ticks : Nat) (leaves : Bool) (sched : Scheduler sizeofEnv) :
    Changes ticks leaves sched sched :=
  ⟨.refl sched, fun _ => .refl _ _ _ _⟩

theorem Changes.trans (first : Changes ticks leaves sched middle)
    (second : Changes 0 leaves middle after) : Changes ticks leaves sched after where
  policy := first.policy.trans second.policy
  envs env := by
    have next := second.envs env
    rw [first.policy.levels] at next
    exact (first.envs env).trans next

theorem Changes.leveled (changes : Changes ticks leaves sched after) (leveled : sched.Leveled) :
    after.Leveled := by
  refine ⟨by rw [changes.policy.levels]; exact leveled.1, fun env bound alive => ?_⟩
  rw [changes.policy.levels]
  rcases (changes.envs env).level alive with below | ⟨before, le⟩
  · exact below
  · exact Nat.lt_of_le_of_lt le (leveled.2 env bound before)

/-- What a whole call does. -/
structure Moved (ticks : Nat) (leaves : Bool) (sched after : Scheduler sizeofEnv) : Prop where
  policy : SamePolicy sched after
  envs : ∀ env, ∃ value,
    (sched.envs env).Changed sched.numOfReadyQueues ticks leaves value ∧
      Dispatched value (after.envs env)

theorem Changes.moved (changes : Changes ticks leaves sched after) :
    Moved ticks leaves sched after :=
  ⟨changes.policy, fun env => ⟨_, changes.envs env, .inl rfl⟩⟩

theorem Moved.leveled (moved : Moved ticks leaves sched after) (leveled : sched.Leveled) :
    after.Leveled := by
  refine ⟨by rw [moved.policy.levels]; exact leveled.1, fun env bound alive => ?_⟩
  rw [moved.policy.levels]
  obtain ⟨value, changed, rfl | ⟨ready, equal⟩⟩ := moved.envs env
  · rcases changed.level alive with below | ⟨before, le⟩
    · exact below
    · exact Nat.lt_of_le_of_lt le (leveled.2 env bound before)
  · rw [equal]
    rcases changed.level (by rw [ready]; nofun) with below | ⟨before, le⟩
    · exact below
    · exact Nat.lt_of_le_of_lt le (leveled.2 env bound before)

/-- A ready environment has no more ticks than it may have. -/
theorem Moved.ready (moved : Moved ticks leaves sched after)
    (ready : (after.envs env).envStatus = .ready) : (after.envs env).nTicks = 0 ∨
      (sched.envs env).envStatus = .ready ∧
        (after.envs env).nTicks ≤ (sched.envs env).nTicks + ticks ∨
      leaves = true ∧ (sched.envs env).envStatus = .running ∧
        (after.envs env).nTicks ≤ (sched.envs env).nTicks := by
  obtain ⟨value, changed, same | ⟨-, same⟩⟩ := moved.envs env
  · rw [← same] at changed
    exact changed.ready ready
  · rw [same] at ready
    nomatch ready

/-- A call settles: it leads to a settled state, or panics. Where it finds no ready queue, not
every environment had a level. -/
def Settles (sched : Scheduler sizeofEnv) (ticks : Nat) (leaves : Bool) (adding : List Nat)
    (call : Except SchedStop (Scheduler sizeofEnv)) : Prop :=
  Ends call
    (fun after => (∃ contents, after.Settled contents adding) ∧ Moved ticks leaves sched after)
    fun stop => stop ≠ .hang ∧ ∀ index, stop = .outOfRange index → ¬ sched.Leveled

theorem Settles.panic : Settles sched ticks leaves adding (.error .panic) :=
  Ends.error ⟨nofun, fun _ => nofun⟩

theorem Settles.nullPointer : Settles sched ticks leaves adding (.error .nullPointer) :=
  Ends.error ⟨nofun, fun _ => nofun⟩

theorem Changes.settles (changes : Changes ticks leaves sched after)
    (settled : after.Settled contents adding) :
    Settles sched ticks leaves adding (.ok after) :=
  Ends.ok ⟨⟨contents, settled⟩, changes.moved⟩

theorem Changes.dispatch (changes : Changes ticks leaves sched middle)
    (switching : middle.Switching contents adding) :
    Settles sched ticks leaves adding middle.dispatch := by
  obtain ⟨after, contents', called, settled, policy, dispatched⟩ := switching.dispatch
  rw [called]
  exact Ends.ok ⟨⟨contents', settled⟩, changes.policy.trans policy,
    fun env => ⟨_, changes.envs env, dispatched env⟩⟩

/-- Changes before a call that settles. -/
theorem Changes.settles_trans {call : Except SchedStop (Scheduler sizeofEnv)}
    (changes : Changes ticks leaves sched middle) (settles : Settles middle 0 leaves adding call) :
    Settles sched ticks leaves adding call := by
  refine settles.mono ?_ fun stop ⟨goes, range⟩ =>
    ⟨goes, fun index equal leveled => range index equal (changes.leveled leveled)⟩
  rintro after ⟨settled, moved⟩
  refine ⟨settled, changes.policy.trans moved.policy, fun env => ?_⟩
  obtain ⟨value, changed, dispatched⟩ := moved.envs env
  rw [changes.policy.levels] at changed
  exact ⟨value, (changes.envs env).trans changed, dispatched⟩

end Scheduler

end FosKernel
