import FosKernel.Cpu.Scheduler
import Mathlib.Data.List.Perm.Subperm

/-!
# The places of environments

Which environments are in which queue, that their status fits the queue, and what the
queue functions do to it. Between the steps of an operation some environments are
*loose*: they are in no queue.
-/

namespace FosKernel

/-- What a queue says about its environments. -/
def SchedEnv.Suits (env : SchedEnv) (numOfReadyQueues : Nat) : QueueName → Prop
  | .free => env.envStatus = .free ∧ env.priority = 0 ∧ env.envId = 0
  | .new => env.envStatus = .new
  | .exit => env.envStatus = .exit
  | .ready level => env.envStatus = .ready ∧ env.priority = level ∧ level < numOfReadyQueues
  | .channel _ => env.envStatus = .blocked

/-- An environment that has just become ready. -/
def SchedEnv.readied (env : SchedEnv) : SchedEnv :=
  { env with
    nTicks := 0
    envStatus := .ready }

/-- The status of the environments in a queue. -/
def QueueName.status : QueueName → EnvStatus
  | .free => .free
  | .new => .new
  | .exit => .exit
  | .ready _ => .ready
  | .channel _ => .blocked

theorem SchedEnv.Suits.status {value : SchedEnv} {levels : Nat} {name : QueueName}
    (suits : value.Suits levels name) : value.envStatus = name.status := by
  cases name with
  | free => exact suits.1
  | new => exact suits
  | exit => exact suits
  | ready level => exact suits.1
  | channel number => exact suits

namespace Scheduler

variable {sizeofEnv : Nat} {sched after : Scheduler sizeofEnv} {contents : QueueName → List Nat}
  {loose : List Nat} {name : QueueName} {env : Nat} {front back : List Nat}

/-- The environment is in no queue. -/
def Outside (contents : QueueName → List Nat) (env : Nat) : Prop := ∀ name,
    env ∉ contents name

/-- The queues hold their contents, environments suit their queues, and only loose environments
are outside. -/
structure Placed (sched : Scheduler sizeofEnv) (contents : QueueName → List Nat)
    (loose : List Nat) : Prop where
  holds : sched.queues.Holds contents
  inside : ∀ name, ∀ env ∈ contents name, env < nenv sizeofEnv
  suits : ∀ name, ∀ env ∈ contents name, (sched.envs env).Suits sched.numOfReadyQueues name
  covers : ∀ env < nenv sizeofEnv, env ∈ loose ∨ ∃ name, env ∈ contents name
  ids : ∀ env, (sched.envs env).envStatus ≠ .free →
    env < nenv sizeofEnv ∧ (sched.envs env).envId = firstEnvId sizeofEnv env
  single : sched.schedulerMethod = .rr → sched.numOfReadyQueues = 1

@[simp] theorem setEnv_self (sched : Scheduler sizeofEnv) (env : Nat) (value : SchedEnv) :
    (sched.setEnv env value).envs env = value :=
  Function.update_self ..

theorem setEnv_of_ne (sched : Scheduler sizeofEnv) {env other : Nat} (value : SchedEnv)
    (different : other ≠ env) : (sched.setEnv env value).envs other = sched.envs other :=
  Function.update_of_ne different ..

/-- `dequeue` takes the last environment of a queue. -/
theorem dequeue_of_holds (holds : sched.queues.Holds contents) (name : QueueName) :
    contents name = [] ∧ sched.dequeue name = (none, sched) ∨
      ∃ front env, contents name = front ++ [env] ∧
        sched.dequeue name = (some env, sched.removeFromQueue name env) := by
  unfold Scheduler.dequeue
  have last_eq : (sched.queue name).last = (contents name).getLast? :=
    (holds.represents name).last_eq
  rw [last_eq]
  rcases List.eq_nil_or_concat (contents name) with empty | ⟨front, env, split⟩
  · rw [empty]
    exact .inl ⟨rfl, rfl⟩
  · rw [List.concat_eq_append] at split
    rw [split, List.getLast?_concat]
    exact .inr ⟨front, env, rfl, rfl⟩

namespace Placed

variable (placed : Placed sched contents loose)

include placed

theorem first_eq (name : QueueName) : (sched.queue name).first = (contents name).head? :=
  (placed.holds.represents name).first_eq

theorem size_eq (name : QueueName) : (sched.queue name).size = (contents name).length :=
  (placed.holds.represents name).size_eq

theorem next_eq (split : contents name = front ++ env :: back) :
    sched.queues.next env = back.head? := by
  have represents := placed.holds.represents name
  rw [split] at represents
  exact represents.links_of_split.2

/-- No queue is longer than there are environments. -/
theorem length_le (name : QueueName) : (contents name).length ≤ nenv sizeofEnv := by
  have subset : contents name ⊆ List.range (nenv sizeofEnv) := fun env member =>
    List.mem_range.mpr (placed.inside name env member)
  have shorter := ((placed.holds.represents name).nodup.subperm subset).length_le
  rwa [List.length_range] at shorter

/-- A list of the ready queues that has members is one of the current levels. -/
theorem level_lt {level : Nat} (member : env ∈ contents (.ready level)) :
    level < sched.numOfReadyQueues :=
  (placed.suits _ env member).2.2

theorem mono {loose' : List Nat} (more : ∀ env ∈ loose, env ∈ loose') :
    Placed sched contents loose' :=
  { placed with
    covers := fun env bound => (placed.covers env bound).imp_left (more env) }

/-- The environment on the CPU and the state of the scheduler do not matter. -/
theorem setCpu (proc : Option Nat) (started : Bool) :
    Placed ({ sched with proc := proc, started := started } : Scheduler sizeofEnv) contents loose :=
  ⟨placed.holds, placed.inside, placed.suits, placed.covers, placed.ids, placed.single⟩

/-- The fields of an environment outside the queues change. -/
theorem setOutside (value : SchedEnv) (outside : Outside contents env)
    (id : env < nenv sizeofEnv ∧ value.envId = firstEnvId sizeofEnv env) :
    Placed (sched.setEnv env value) contents loose where
  holds := placed.holds
  inside := placed.inside
  suits name member listed := by
    have different : member ≠ env := fun same => outside name (same ▸ listed)
    rw [setEnv_of_ne _ _ different]
    exact placed.suits name member listed
  covers := placed.covers
  ids other := by
    by_cases same : other = env
    · subst same
      rw [setEnv_self]
      exact fun _ => id
    · rw [setEnv_of_ne _ _ same]
      exact placed.ids other
  single := placed.single

/-- The ticks of an environment change, or the priority of one that is not ready. -/
theorem adjust {value : SchedEnv} (id : value.envId = (sched.envs env).envId)
    (status : value.envStatus = (sched.envs env).envStatus)
    (priority : value.priority = (sched.envs env).priority ∨
      (sched.envs env).envStatus ≠ .ready ∧ (sched.envs env).envStatus ≠ .free) :
    Placed (sched.setEnv env value) contents loose := by
  refine ⟨placed.holds, placed.inside, ?_, placed.covers, ?_, placed.single⟩
  · intro name other member
    have suits := placed.suits name other member
    by_cases same : other = env
    · subst same
      rw [setEnv_self]
      cases name with
      | free =>
          obtain ⟨free, top, zero⟩ := suits
          exact ⟨status.trans free, (priority.resolve_right fun apart => apart.2 free).trans top,
            id.trans zero⟩
      | new => exact status.trans suits
      | exit => exact status.trans suits
      | ready level =>
          obtain ⟨ready, equal, below⟩ := suits
          exact ⟨status.trans ready,
            (priority.resolve_right fun apart => apart.1 ready).trans equal, below⟩
      | channel number => exact status.trans suits
    · rwa [setEnv_of_ne _ _ same]
  · intro other
    by_cases same : other = env
    · subst same
      rw [setEnv_self, status, id]
      exact placed.ids other
    · rw [setEnv_of_ne _ _ same]
      exact placed.ids other

theorem setTicks (env nTicks : Nat) :
    Placed (sched.setEnv env { sched.envs env with nTicks := nTicks }) contents loose :=
  placed.adjust rfl rfl (.inl rfl)

/-- An environment leaves a queue and is loose. -/
theorem remove (split : contents name = front ++ env :: back) :
    Placed (sched.removeFromQueue name env) (Function.update contents name (front ++ back))
      (env :: loose) where
  holds := placed.holds.remove split
  inside other member listed :=
    placed.inside other member ((placed.holds.mem_remove split).mp listed).1
  suits other member listed :=
    placed.suits other member ((placed.holds.mem_remove split).mp listed).1
  covers other bound := by
    by_cases same : other = env
    · exact .inl (by simp [same])
    · rcases placed.covers other bound with outside | ⟨name', member⟩
      · exact .inl (List.mem_cons_of_mem _ outside)
      · exact .inr ⟨name', (placed.holds.mem_remove split).mpr ⟨member, same⟩⟩
  ids := placed.ids
  single := placed.single

theorem dequeue_cases (name : QueueName) :
    contents name = [] ∧ sched.dequeue name = (none, sched) ∨
      ∃ front env, contents name = front ++ [env] ∧
        sched.dequeue name = (some env, sched.removeFromQueue name env) :=
  dequeue_of_holds placed.holds name

end Placed

/-- A loose environment enters a queue that it suits. -/
theorem Placed.enqueue (name : QueueName) (placed : Placed sched contents (env :: loose))
    (outside : Outside contents env) (bound : env < nenv sizeofEnv)
    (suits : (sched.envs env).Suits sched.numOfReadyQueues name) :
    Placed (sched.enqueue name env) (Function.update contents name (env :: contents name))
      loose where
  holds := placed.holds.insertHead outside
  inside other member listed := by
    rcases SharedLists.mem_insert.mp listed with old | ⟨rfl, rfl⟩
    · exact placed.inside other member old
    · exact bound
  suits other member listed := by
    rcases SharedLists.mem_insert.mp listed with old | ⟨rfl, rfl⟩
    · exact placed.suits other member old
    · exact suits
  covers other bound := by
    rcases placed.covers other bound with free | ⟨name', member⟩
    · rcases List.mem_cons.mp free with rfl | free
      · exact .inr ⟨name, SharedLists.mem_insert.mpr (.inr ⟨rfl, rfl⟩)⟩
      · exact .inl free
    · exact .inr ⟨name', SharedLists.mem_insert.mpr (.inl member)⟩
  ids := placed.ids
  single := placed.single

/-- What `sched_insert_ready` does. -/
def readied (sched : Scheduler sizeofEnv) (env : Nat) : Scheduler sizeofEnv :=
  (sched.setEnv env (sched.envs env).readied).enqueue (.ready (sched.envs env).priority) env

theorem readied_envs (sched : Scheduler sizeofEnv) (env : Nat) :
    (sched.readied env).envs = Function.update sched.envs env (sched.envs env).readied :=
  rfl

theorem schedInsertReady_eq (sched : Scheduler sizeofEnv) (env : Nat) :
    sched.schedInsertReady (some env) =
      if (sched.envs env).priority < sched.numOfReadyQueues then .ok (sched.readied env)
      else .error (.outOfRange (sched.envs env).priority) := by
  have same : ((sched.setEnv env (sched.envs env).readied).envs env).priority =
      (sched.envs env).priority := by
    rw [setEnv_self]
    rfl
  unfold schedInsertReady
  change ((sched.setEnv env (sched.envs env).readied).readyQueue
    ((sched.setEnv env (sched.envs env).readied).envs env).priority >>= fun queue =>
      .ok ((sched.setEnv env (sched.envs env).readied).enqueue queue env)) = _
  rw [same]
  unfold readyQueue
  by_cases level : (sched.envs env).priority < sched.numOfReadyQueues
  · rw [if_pos level]
    exact congrArg (· >>= _) (if_pos level)
  · rw [if_neg level]
    exact congrArg (· >>= _) (if_neg level)

/-- A loose environment becomes ready. -/
theorem Placed.readied (placed : Placed sched contents (env :: loose))
    (outside : Outside contents env) (alive : (sched.envs env).envStatus ≠ .free)
    (level : (sched.envs env).priority < sched.numOfReadyQueues) :
    Placed (sched.readied env)
      (Function.update contents (.ready (sched.envs env).priority)
        (env :: contents (.ready (sched.envs env).priority))) loose := by
  have ready := placed.setOutside (sched.envs env).readied outside (placed.ids env alive)
  refine ready.enqueue _ outside (placed.ids env alive).1 ?_
  rw [setEnv_self]
  exact ⟨rfl, rfl, level⟩

end Scheduler

end FosKernel
